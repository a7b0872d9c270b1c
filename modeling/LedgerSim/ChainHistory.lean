import LedgerSim.LedgerRun

/-!
# The coins of a chain

Over any run from genesis, no coin is created or removed twice by the blocks of
the chain, and the coins that they created and did not remove are worth the
rewards of the blocks.
-/

namespace LedgerSim

open SpeculativeLedger (Block State Inv Admissible Grounded)

variable (E : Environment)

/-! ## Additions and removals -/

def chainAdditions (chain : List (Header × Body)) :
    Except Exn (List (List Coin)) :=
  chain.mapM fun block => additionsForBody E block.2

def chainRemovals (chain : List (Header × Body)) :
    Except Exn (List (List Bytes32)) :=
  chain.mapM fun block => removalsForBody E block.2

variable {E}

theorem BlockOf.additions {body : Body} {b : Block Bytes32}
    (h : BlockOf E [body.coinbaseCoin, body.feesCoin]
      (namePuzzleConditionsList E body.solutionProgram) b) :
    ∃ additions, additionsForBody E body = .ok additions ∧
      additions.map (Coin.name E) = b.created := by
  obtain ⟨npcList, outputs, hnpcs, houtputs, rfl⟩ := h
  refine ⟨body.coinbaseCoin :: body.feesCoin :: outputs, ?_, by
    simp [Block.created]⟩
  apply Except.bind_eq_ok hnpcs
  exact Except.bind_eq_ok houtputs rfl

theorem BlockOf.removals {body : Body} {b : Block Bytes32}
    (h : BlockOf E [body.coinbaseCoin, body.feesCoin]
      (namePuzzleConditionsList E body.solutionProgram) b) :
    removalsForBody E body = .ok b.spent := by
  obtain ⟨npcList, outputs, hnpcs, -, rfl⟩ := h
  exact Except.bind_eq_ok hnpcs rfl

variable {blobs : List Bytes} {server : LedgerAPI}
  {chain : List (Header × Body)} {s : State Bytes32}

theorem Simulates.chainAdditions (h : Simulates E blobs server chain s) :
    ∃ additions, chainAdditions E chain = .ok additions ∧
      additions.map (List.map (Coin.name E)) =
        (List.range s.tip).map fun k => (s.blocks (k + 1)).created := by
  have hchain := h.chain
  have hcreated : ((List.range s.tip).map fun k => s.blocks (k + 1)).map
      Block.created =
        (List.range s.tip).map fun k => (s.blocks (k + 1)).created :=
    List.map_map
  rw [← hcreated]
  generalize (List.range s.tip).map (fun k => s.blocks (k + 1)) = bs at hchain
  unfold LedgerSim.chainAdditions
  clear h hcreated
  induction hchain with
  | nil => exact ⟨[], rfl, rfl⟩
  | @cons block b chain bs hblock _ ih =>
      obtain ⟨additions, hadditions, hnames⟩ := hblock.additions
      obtain ⟨rest, hrest, hrestNames⟩ := ih
      refine ⟨additions :: rest, ?_, ?_⟩
      · rw [List.mapM_cons]
        apply Except.bind_eq_ok hadditions
        exact Except.bind_eq_ok hrest rfl
      · rw [List.map_cons, List.map_cons, hnames, hrestNames]

theorem Simulates.chainRemovals (h : Simulates E blobs server chain s) :
    chainRemovals E chain =
      .ok ((List.range s.tip).map fun k => (s.blocks (k + 1)).spent) := by
  refine Except.mapM_eq_ok_iff.mpr ?_
  have hchain := h.chain
  rw [List.forall₂_map_right_iff] at hchain ⊢
  exact hchain.imp fun _ _ hblock => hblock.removals

theorem Simulates.chainNames (h : Simulates E blobs server chain s) :
    ∃ additions removals, LedgerSim.chainAdditions E chain = .ok additions ∧
      LedgerSim.chainRemovals E chain = .ok removals ∧
      additions.flatten.map (Coin.name E) = s.chainCreated ∧
      removals.flatten = s.chainSpent := by
  obtain ⟨additions, hadditions, hcreated⟩ := h.chainAdditions
  refine ⟨additions, _, hadditions, h.chainRemovals, ?_, ?_⟩
  · rw [List.map_flatten, hcreated, State.chainCreated, List.flatMap_def]
  · rw [State.chainSpent, List.flatMap_def]

/-! ## The chain -/

variable (E) in
/-- Blocks that lead from the genesis hash to a tip, each with the hash of the
header before it and of its own body. -/
inductive ChainTo : List (Header × Body) → Bytes32 → Prop
  | genesis : ChainTo [] ledgerGenesisHash.hash
  | block {chain : List (Header × Body)} {tipHash : Bytes32} {header : Header}
      {body : Body} {headerBlob bodyBlob : Bytes} :
      ChainTo chain tipHash → header.previousHash.hash = tipHash →
      body.bytes E = .ok bodyBlob →
      header.bodyHash.hash = E.stdHash bodyBlob →
      header.bytes = .ok headerBlob →
      ChainTo (chain ++ [(header, body)]) (E.stdHash headerBlob)

theorem ChainTo.of_append {chain : List (Header × Body)} {header : Header}
    {body : Body} {tipHash : Bytes32}
    (h : ChainTo E (chain ++ [(header, body)]) tipHash) :
    ChainTo E chain header.previousHash.hash ∧
      ∃ headerBlob, header.bytes = .ok headerBlob ∧
        tipHash = E.stdHash headerBlob := by
  generalize hchain : chain ++ [(header, body)] = chain' at h
  cases h with
  | genesis => simp at hchain
  | block hprefix hprevious hbody hbodyHash hbytes =>
      obtain ⟨rfl, hlast⟩ := List.append_inj' hchain rfl
      obtain ⟨rfl, rfl⟩ := Prod.mk.inj (List.singleton_inj.mp hlast)
      exact ⟨hprevious ▸ hprefix, _, hbytes, rfl⟩

theorem ChainTo.tip_unique {chain : List (Header × Body)}
    {tipHash tipHash' : Bytes32} (h : ChainTo E chain tipHash)
    (h' : ChainTo E chain tipHash') : tipHash = tipHash' := by
  cases h with
  | genesis =>
      generalize hchain : ([] : List (Header × Body)) = chain at h'
      cases h' with
      | genesis => rfl
      | block => simp at hchain
  | block _ _ _ _ hbytes =>
      obtain ⟨-, headerBlob, hheaderBlob, rfl⟩ := h'.of_append
      rw [Except.ok.inj (hbytes.symm.trans hheaderBlob)]

namespace LedgerAPI

/-- The blocks that a run answers with are the chain that ends at its tip. -/
theorem blocks_chainTo (hE : E.Lawful) (requests : List Request)
    (hhash : HashAssumptions E (knownBlobs E requests)
      (run E requests).chainView.tipIndex) :
    ChainTo E (blocks E requests) (run E requests).chainView.tipHash.hash ∧
      (blocks E requests).length = (run E requests).chainView.tipIndex := by
  obtain ⟨s, hs, hchain⟩ := run_induction hE hhash
    (fun requests _ => ChainTo E (blocks E requests)
      (run E requests).chainView.tipHash.hash) .genesis
    (by
      intro requests request server' response s s' _ hchain hserver hresponse
        hstep
      rw [blocks_append, newBlock, hserver, hresponse]
      have hnone := List.append_nil (blocks E requests)
      cases hstep with
      | refused e added => exact hnone.symm ▸ hchain
      | skipped ms => exact hnone.symm ▸ hchain
      | pushed f a => exact hnone.symm ▸ hchain
      | mined f a =>
          exact .block hchain rfl f.body_bytes rfl f.header_bytes)
    requests (List.Subset.refl _) le_rfl
  refine ⟨hchain, ?_⟩
  rw [hs.chain.length_eq, List.length_map, List.length_range, hs.tip]

/-! ## No coin twice -/

/-- No coin is created twice or removed twice, in one block or in two. -/
theorem run_no_coin_twice (hE : E.Lawful) (requests : List Request)
    (hhash : HashAssumptions E (knownBlobs E requests)
      (run E requests).chainView.tipIndex) :
    ∃ additions removals,
      chainAdditions E (blocks E requests) = .ok additions ∧
        chainRemovals E (blocks E requests) = .ok removals ∧
        (additions.flatten.map (Coin.name E)).Nodup ∧
        removals.flatten.Nodup := by
  obtain ⟨s, hs⟩ := exists_simulates hE requests hhash
  obtain ⟨additions, removals, hadditions, hremovals, hcreated, hspent⟩ :=
    hs.chainNames
  refine ⟨additions, removals, hadditions, hremovals, ?_, ?_⟩
  · rw [hcreated]
    exact hs.inv.chainCreated_nodup
  · rw [hspent]
    exact hs.inv.chainSpent_nodup

open Reference in
theorem run_no_coin_twice_doubleSpend :
    ∃ additions removals,
      chainAdditions environment (blocks environment
          (spendRequests ++ [doubleSpendRequest])) = .ok additions ∧
        chainRemovals environment (blocks environment
          (spendRequests ++ [doubleSpendRequest])) = .ok removals ∧
        (additions.flatten.map (Coin.name environment)).Nodup ∧
        removals.flatten.Nodup :=
  run_no_coin_twice environment_lawful _ doubleSpend_hashAssumptions

end LedgerAPI

/-! ## The supply -/

section Supply

variable (blobs) in
def amountOf (name : Bytes32) : ℤ :=
  (knownCoin E blobs name).amount

theorem sum_amountOf (hE : E.Lawful) (hfree : CollisionFree E blobs)
    {coins : List Coin} (hcoins : ∀ coin ∈ coins, coin.bytes E ∈ blobs) :
    ((coins.map (Coin.name E)).map (amountOf (E := E) blobs)).sum =
      (coins.map Coin.amount).sum := by
  rw [List.map_map]
  refine congrArg List.sum (List.map_congr_left fun coin hcoin => ?_)
  simp only [Function.comp_apply, amountOf,
    hfree.knownCoin_name hE (hcoins coin hcoin)]

variable {chainView : ChainView} {spendBundles : List SpendBundle}
  {coinbasePuzzleHash feesPuzzleHash : Bytes32} {now : ℕ}
  {f : Farmed E chainView spendBundles coinbasePuzzleHash feesPuzzleHash now}
  {db : Database} (a : f.Accepted db)

/-- A farmed block creates its reward more than it spends. -/
theorem Farmed.candidate_balanced (hE : E.Lawful)
    (hfree : CollisionFree E blobs)
    (hcovers : Farmed.Covers (E := E) blobs f.claims a.additions
      (f.stored db).hashPreimage) :
    ((f.candidate a).created.map (amountOf (E := E) blobs)).sum -
        ((f.candidate a).spent.map (amountOf (E := E) blobs)).sum =
      blockReward := by
  have hspent : (f.candidate a).spent =
      (f.claims.map CoinSolution.coin).map (Coin.name E) := by
    rw [List.map_map]
    exact f.removals_eq hE a
  have hcpcs : (f.claims.map CoinSolution.coin).map Coin.amount =
      a.cpcList.map fun cpc => cpc.coin.amount := by
    rw [List.map_map]
    apply List.Forall₂.map_eq_map
    exact (f.resolved_claims hE hfree a hcovers).imp
      fun _ _ h => congrArg Coin.amount h.1.symm
  rw [f.candidate_created a, sum_amountOf hE hfree hcovers.added, hspent,
    sum_amountOf hE hfree, hcpcs]
  · exact a.fees
  · intro coin hcoin
    obtain ⟨claim, hclaim, rfl⟩ := List.mem_map.mp hcoin
    exact hcovers.claimed claim hclaim

theorem Farmed.candidate_revealed (hE : E.Lawful)
    (hfree : CollisionFree E blobs)
    (hcovers : Farmed.Covers (E := E) blobs f.claims a.additions
      (f.stored db).hashPreimage) {name : Bytes32}
    (hname : name ∈ (f.candidate a).spent) :
    ∃ claim ∈ f.claims, ∃ puzzle, claim.solution.first = .ok puzzle ∧
      (knownCoin E blobs name).puzzleHash = E.treeHash puzzle := by
  obtain ⟨claim, hclaim, rfl⟩ := f.exists_claim_of_spent a hE hname
  obtain ⟨cpc, hcpc, hcoin, puzzle, hpuzzle, hhash⟩ :=
    (f.resolved_claims hE hfree a hcovers).exists_of_mem_left hclaim
  refine ⟨claim, hclaim, puzzle, hpuzzle, ?_⟩
  rw [hfree.knownCoin_name hE (hcovers.claimed claim hclaim), ← hcoin,
    ← a.puzzleHash cpc hcpc, hhash]

end Supply

def revealedPuzzles (requests : List Request) : List Program :=
  requests.flatMap fun request =>
    match request with
    | .pushTx tx =>
        tx.coinSolutions.filterMap fun claim => claim.solution.first.toOption
    | _ => []

theorem mem_revealedPuzzles {requests : List Request} {tx : SpendBundle}
    (htx : Request.pushTx tx ∈ requests) {claim : CoinSolution}
    (hclaim : claim ∈ tx.coinSolutions) {puzzle : Program}
    (hpuzzle : claim.solution.first = .ok puzzle) :
    puzzle ∈ revealedPuzzles requests := by
  refine List.mem_flatMap.mpr ⟨.pushTx tx, htx, ?_⟩
  refine List.mem_filterMap.mpr ⟨claim, hclaim, ?_⟩
  rw [hpuzzle]
  rfl

variable (E) in
/-- What the sum of the chain's coins is read from. -/
structure Accounts (blobs : List Bytes) (puzzles : List Program)
    (chain : List (Header × Body)) (s : State Bytes32) : Prop where
  known : ∀ block ∈ chain, ∀ additions,
    additionsForBody E block.2 = .ok additions →
      ∀ coin ∈ additions, coin.bytes E ∈ blobs
  balanced : ∀ k < s.tip,
    ((s.blocks (k + 1)).created.map (amountOf (E := E) blobs)).sum -
      ((s.blocks (k + 1)).spent.map (amountOf (E := E) blobs)).sum =
        blockReward
  trials : ∀ name ∈ s.trialRewards,
    (knownCoin E blobs name).puzzleHash = dryRunCoinbasePuzzleHash ∨
      (knownCoin E blobs name).puzzleHash = dryRunFeesPuzzleHash
  revealed : ∀ k, ∀ name ∈ (s.blocks k).spent, ∃ puzzle ∈ puzzles,
    (knownCoin E blobs name).puzzleHash = E.treeHash puzzle

theorem Accounts.mono {puzzles puzzles' : List Program} (hsub : puzzles ⊆ puzzles')
    (h : Accounts E blobs puzzles chain s) :
    Accounts E blobs puzzles' chain s :=
  { h with
    revealed := fun k name hname =>
      let ⟨puzzle, hpuzzle, hhash⟩ := h.revealed k name hname
      ⟨puzzle, hsub hpuzzle, hhash⟩ }

section Step

variable {puzzles : List Program} {chainView : ChainView}
  {spendBundles : List SpendBundle}
  {coinbasePuzzleHash feesPuzzleHash : Bytes32} {now : ℕ} {db : Database}

theorem Accounts.write_revealed (h : Accounts E blobs puzzles chain s)
    (hE : E.Lawful) (hfree : CollisionFree E blobs)
    {f : Farmed E chainView spendBundles coinbasePuzzleHash feesPuzzleHash now}
    (a : f.Accepted db)
    (hcovers : Farmed.Covers (E := E) blobs f.claims a.additions
      (f.stored db).hashPreimage)
    (hclaims : ∀ claim ∈ f.claims, ∀ puzzle,
      claim.solution.first = .ok puzzle → puzzle ∈ puzzles)
    (kept tried : List Bytes32) (k : ℕ) (name : Bytes32)
    (hname : name ∈ ((s.write (f.candidate a) kept tried).blocks k).spent) :
    ∃ puzzle ∈ puzzles,
      (knownCoin E blobs name).puzzleHash = E.treeHash puzzle := by
  by_cases hk : k = s.tip + 1
  · subst k
    rw [State.write_blocks_self] at hname
    obtain ⟨claim, hclaim, puzzle, hpuzzle, hhash⟩ :=
      f.candidate_revealed a hE hfree hcovers hname
    exact ⟨puzzle, hclaims claim hclaim puzzle hpuzzle, hhash⟩
  · rw [State.write_blocks_of_ne _ _ _ _ hk] at hname
    exact h.revealed k name hname

theorem Accounts.pushed (h : Accounts E blobs puzzles chain s)
    (hE : E.Lawful) (hfree : CollisionFree E blobs)
    {f : Farmed E chainView spendBundles dryRunCoinbasePuzzleHash
      dryRunFeesPuzzleHash now} (a : f.Accepted db)
    (hcovers : Farmed.Covers (E := E) blobs f.claims a.additions
      (f.stored db).hashPreimage)
    (hclaims : ∀ claim ∈ f.claims, ∀ puzzle,
      claim.solution.first = .ok puzzle → puzzle ∈ puzzles) :
    Accounts E blobs puzzles chain (s.trial (f.candidate a)) where
  known := h.known
  balanced k hk := by
    have hlt : k < s.tip := hk
    rw [State.trial_blocks_of_ne _ _ (by omega)]
    exact h.balanced k hlt
  trials name hname := by
    rcases List.mem_append.mp hname with hnew | hold
    · obtain ⟨coin, hcoin, rfl⟩ := List.mem_map.mp hnew
      rw [hfree.knownCoin_name hE
        (hcovers.added coin (mem_additions_iff.mpr (.inl hcoin)))]
      rcases List.mem_pair.mp hcoin with rfl | rfl
      · exact .inl rfl
      · exact .inr rfl
    · exact h.trials name hold
  revealed := h.write_revealed hE hfree a hcovers hclaims [] _

theorem Accounts.mined (h : Accounts E blobs puzzles chain s)
    (hE : E.Lawful) (hfree : CollisionFree E blobs)
    {f : Farmed E chainView spendBundles coinbasePuzzleHash feesPuzzleHash now}
    (a : f.Accepted db)
    (hcovers : Farmed.Covers (E := E) blobs f.claims a.additions
      (f.stored db).hashPreimage)
    (hclaims : ∀ claim ∈ f.claims, ∀ puzzle,
      claim.solution.first = .ok puzzle → puzzle ∈ puzzles) :
    Accounts E blobs puzzles (chain ++ [(f.header, f.body)])
      (s.commit (f.candidate a)) where
  known block hblock additions hadditions := by
    rcases List.mem_append.mp hblock with hold | hnew
    · exact h.known block hold additions hadditions
    · obtain rfl := List.mem_singleton.mp hnew
      obtain rfl := Except.ok.inj (a.additionsForBody_eq.symm.trans hadditions)
      exact hcovers.added
  balanced k hk := by
    by_cases hlt : k = s.tip
    · subst k
      rw [State.commit_blocks_self]
      exact f.candidate_balanced a hE hfree hcovers
    · have : k < s.tip + 1 := hk
      rw [State.commit_blocks_of_ne _ _ (by omega)]
      exact h.balanced k (by omega)
  trials := h.trials
  revealed := h.write_revealed hE hfree a hcovers hclaims _ []

end Step

namespace LedgerAPI

theorem run_accounts (hE : E.Lawful) (requests : List Request)
    (hhash : HashAssumptions E (knownBlobs E requests)
      (run E requests).chainView.tipIndex) :
    ∃ s, Simulates E (knownBlobs E requests) (run E requests)
        (blocks E requests) s ∧
      Accounts E (knownBlobs E requests) (revealedPuzzles requests)
        (blocks E requests) s := by
  have hfree := hhash.collisionFree
  generalize hblobs : knownBlobs E requests = blobs at hhash hfree ⊢
  refine run_induction hE hhash
    (fun requests s => Accounts E blobs (revealedPuzzles requests)
      (blocks E requests) s) ?_ ?_ requests (by rw [hblobs]; simp) le_rfl
  · constructor <;> simp [State.initial, blocks, blocksFrom, Block.empty]
  intro requests request server' response s s' hs hP hserver hresponse hstep
  have hP' : Accounts E blobs (revealedPuzzles (requests ++ [request]))
      (blocks E requests) s := by
    apply hP.mono
    rw [revealedPuzzles, revealedPuzzles, List.flatMap_append]
    exact List.subset_append_left _ _
  have hpending : ∀ claim ∈ (run E requests).claims, ∀ puzzle,
      claim.solution.first = .ok puzzle →
        puzzle ∈ revealedPuzzles (requests ++ [request]) := by
    intro claim hclaim puzzle hpuzzle
    obtain ⟨tx, htx, hmem⟩ := List.mem_flatMap.mp hclaim
    exact mem_revealedPuzzles
      (List.mem_append_left _ (pushTx_mem_of_pending htx)) hmem hpuzzle
  rw [blocks_append, newBlock, hresponse]
  have hnone := List.append_nil (blocks E requests)
  cases hstep with
  | refused e added => exact hnone.symm ▸ hP'
  | skipped ms => exact hnone.symm ▸ hP'
  | @pushed tx f a hcovers hadmissible =>
      refine hnone.symm ▸ hP'.pushed hE hfree a hcovers ?_
      intro claim hclaim puzzle hpuzzle
      rw [Farmed.claims, List.flatMap_append, List.flatMap_singleton,
        List.mem_append] at hclaim
      rcases hclaim with hold | hnew
      · exact hpending claim hold puzzle hpuzzle
      · exact mem_revealedPuzzles (List.mem_append_right _ List.mem_cons_self)
          hnew hpuzzle
  | mined f a hcovers hadmissible =>
      exact hP'.mined hE hfree a hcovers hpending

/-- The coins that the chain created and did not remove are worth the rewards
of its blocks. -/
theorem run_supply (hE : E.Lawful) (requests : List Request)
    (hhash : HashAssumptions E (knownBlobs E requests)
      (run E requests).chainView.tipIndex)
    (hpuzzles : ∀ puzzle ∈ revealedPuzzles requests,
      E.treeHash puzzle ≠ dryRunCoinbasePuzzleHash ∧
        E.treeHash puzzle ≠ dryRunFeesPuzzleHash) :
    ∃ additions removals,
      chainAdditions E (blocks E requests) = .ok additions ∧
        chainRemovals E (blocks E requests) = .ok removals ∧
        ((additions.flatten.filter fun coin =>
            coin.name E ∉ removals.flatten).map Coin.amount).sum =
          blockReward * (run E requests).chainView.tipIndex := by
  obtain ⟨s, hs, haccounts⟩ := run_accounts hE requests hhash
  have hfree := hhash.collisionFree
  obtain ⟨additions, removals, hadditions, hremovals, hcreated, hspent⟩ :=
    hs.chainNames
  refine ⟨additions, removals, hadditions, hremovals, ?_⟩
  have hknown : ∀ coin ∈ additions.flatten,
      coin.bytes E ∈ knownBlobs E requests := by
    intro coin hcoin
    obtain ⟨coins, hcoins, hmem⟩ := List.mem_flatten.mp hcoin
    obtain ⟨block, hblock, hcoins⟩ :=
      (Except.mem_iff_of_mapM_eq_ok hadditions).mp hcoins
    exact haccounts.known block hblock coins hcoins coin hmem
  -- a dry run's reward has a puzzle hash that no solution can match
  have hchain : ∀ name ∈ s.chainSpent, name ∉ s.trialRewards := by
    intro name hname htrial
    obtain ⟨k, -, hk⟩ := List.mem_flatMap.mp hname
    obtain ⟨puzzle, hpuzzle, hhash⟩ := haccounts.revealed _ name hk
    rcases haccounts.trials name htrial with hdummy | hdummy
    · exact (hpuzzles puzzle hpuzzle).1 (hhash.symm.trans hdummy)
    · exact (hpuzzles puzzle hpuzzle).2 (hhash.symm.trans hdummy)
  have hsupply := hs.inv.supply _ _ haccounts.balanced hchain
  rw [← hcreated, ← hspent, List.filter_map, hs.tip] at hsupply
  rw [← hsupply, sum_amountOf hE hfree]
  · simp [Function.comp_def]
  · intro coin hcoin
    exact hknown coin (List.mem_of_mem_filter hcoin)

open Reference in
theorem run_supply_doubleSpend :
    ∃ additions removals,
      chainAdditions environment (blocks environment
          (spendRequests ++ [doubleSpendRequest])) = .ok additions ∧
        chainRemovals environment (blocks environment
          (spendRequests ++ [doubleSpendRequest])) = .ok removals ∧
        ((additions.flatten.filter fun coin =>
            coin.name environment ∉ removals.flatten).map Coin.amount).sum =
          blockReward * (run environment
            (spendRequests ++ [doubleSpendRequest])).chainView.tipIndex :=
  run_supply environment_lawful _ doubleSpend_hashAssumptions
    (by decide +kernel)

end LedgerAPI

end LedgerSim
