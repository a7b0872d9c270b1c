import LedgerSim.IndependentBundles

/-!
# Coins that a wallet follows

A wallet knows the chain by the additions and removals of its blocks, and the
ledger knows it by the records in its database, which the dry runs write into
as well.  The two agree on every coin that is not a reward of a dry run.
-/

namespace LedgerSim

open SpeculativeLedger (Block State)

variable (E : Environment)

/-- By the deltas of the blocks, the block with this index created the coin and
no block removed it. -/
structure UnspentSince (chain : List (Header × Body)) (name : Bytes32)
    (confirmed : ℕ) : Prop where
  created : ∃ k block additions, chain[k]? = some block ∧ confirmed = k + 1 ∧
    additionsForBody E block.2 = .ok additions ∧
    name ∈ additions.map (Coin.name E)
  unspent : ∀ block ∈ chain, ∀ removals,
    removalsForBody E block.2 = .ok removals → name ∉ removals

/-- The record that the next block finds lets it remove the coin. -/
def LedgerAPI.SpendableSince (server : LedgerAPI) (name : Bytes32)
    (confirmed : ℕ) : Prop :=
  ∃ unspent, server.db.unspentForCoinName name = some unspent ∧
    unspent.confirmedBlockIndex = confirmed ∧
    unspent.Spendable server.chainView.tipIndex

/-- A dry run that accepted a bundle has paid this reward. -/
def LedgerAPI.DryRunReward (requests : List Request) (name : Bytes32) :
    Prop :=
  ∃ before tx after, requests = before ++ Request.pushTx tx :: after ∧
    ((handle E (.pushTx tx)).run (run E before)).1 = .ok (.accepted tx) ∧
    name ∈ ((run E before).dryRunRewards E
      ((run E before).claimsWith tx)).map (Coin.name E)

variable {E}

namespace LedgerAPI

section Simulation

variable {blobs : List Bytes} {server : LedgerAPI}
  {chain : List (Header × Body)} {s : State Bytes32} {name : Bytes32}
  {confirmed : ℕ}

/-- The block of the simulation at an index of the chain. -/
theorem Simulates.blockOf_getElem (hs : Simulates E blobs server chain s)
    {k : ℕ} {block : Header × Body} (hblock : chain[k]? = some block) :
    k < s.tip ∧ BlockOf E [block.2.coinbaseCoin, block.2.feesCoin]
      (namePuzzleConditionsList E block.2.solutionProgram)
      (s.blocks (k + 1)) := by
  obtain ⟨hlength, hget⟩ := List.forall₂_iff_get.mp hs.chain
  obtain ⟨hk, rfl⟩ := List.getElem?_eq_some_iff.mp hblock
  have hk' := hk
  rw [hlength] at hk'
  have hblockOf := hget k hk hk'
  simp only [List.length_map, List.length_range] at hk'
  simpa [hk'] using hblockOf

theorem Simulates.exists_block (hs : Simulates E blobs server chain s)
    {k : ℕ} (hk : k < s.tip) : ∃ block, chain[k]? = some block := by
  have hlength := (List.forall₂_iff_get.mp hs.chain).1
  simp only [List.length_map, List.length_range] at hlength
  exact ⟨chain[k], List.getElem?_eq_getElem (hlength ▸ hk)⟩

/-- What the deltas leave unspent can be spent. -/
theorem Simulates.spendable_of_unspentSince
    (hs : Simulates E blobs server chain s)
    (h : UnspentSince E chain name confirmed) :
    server.SpendableSince name confirmed := by
  obtain ⟨k, block, additions, hblock, rfl, hadditions, hname⟩ := h.created
  obtain ⟨hk, hblockOf⟩ := blockOf_getElem hs hblock
  obtain ⟨additions', hadditions', hcreated⟩ := hblockOf.additions
  obtain rfl := Except.ok.inj (hadditions.symm.trans hadditions')
  rw [hcreated] at hname
  obtain ⟨e, he, hconfirmed⟩ := hs.inv.record_of_created _ name hname
  have hrecord := he
  rw [hs.records, recordsOf, Option.map_eq_some_iff] at hrecord
  obtain ⟨unspent, hunspent, rfl⟩ := hrecord
  have hindex : unspent.confirmedBlockIndex = k + 1 := hconfirmed
  refine ⟨unspent, hunspent, hindex, ?_, ?_⟩
  · rw [hindex, ← hs.tip]
    omega
  -- a spent record stems from a block of the chain
  rintro ⟨hpos, hle⟩
  have hspent := hs.inv.spent_of_record name _ he hpos
  obtain ⟨j, hj⟩ := Nat.exists_eq_succ_of_ne_zero hpos.ne'
  change name ∈ (s.blocks unspent.spentBlockIndex).spent at hspent
  have hjtip : j < s.tip := by
    rw [hs.tip]
    omega
  obtain ⟨spender, hspender⟩ := exists_block hs hjtip
  obtain ⟨-, hspenderOf⟩ := blockOf_getElem hs hspender
  rw [hj] at hspent
  exact h.unspent spender (List.mem_of_getElem? hspender) _
    hspenderOf.removals hspent

/-- What can be spent is unspent by the deltas, unless a trial paid it. -/
theorem Simulates.unspentSince_of_spendable
    (hs : Simulates E blobs server chain s)
    (h : server.SpendableSince name confirmed)
    (htrial : name ∉ s.trialRewards) :
    UnspentSince E chain name confirmed := by
  obtain ⟨unspent, hunspent, rfl, hspendable⟩ := h
  have he : s.records name = some unspent.entry := by
    rw [hs.records, recordsOf, hunspent]
    rfl
  rw [← hs.tip] at hspendable
  constructor
  · have hcreated :=
      (hs.inv.created_of_record name _ he).resolve_right htrial
    obtain ⟨k, hk⟩ := Nat.exists_eq_succ_of_ne_zero hspendable.1.1.ne'
    change name ∈ (s.blocks unspent.confirmedBlockIndex).created at hcreated
    have hktip : k < s.tip := by
      have := hspendable.1.2
      omega
    obtain ⟨block, hblock⟩ := exists_block hs hktip
    obtain ⟨additions, hadditions, hnames⟩ :=
      (blockOf_getElem hs hblock).2.additions
    refine ⟨k, block, additions, hblock, hk, hadditions, ?_⟩
    rw [hnames]
    rwa [hk] at hcreated
  · intro block hblock removals hremovals hname
    obtain ⟨k, hk, rfl⟩ := List.mem_iff_getElem.mp hblock
    obtain ⟨hktip, hblockOf⟩ :=
      blockOf_getElem hs (List.getElem?_eq_getElem hk)
    obtain rfl := Except.ok.inj (hremovals.symm.trans hblockOf.removals)
    obtain ⟨-, e, he', hspent⟩ := hs.inv.record_of_spent _ name hname
    obtain rfl := Option.some.inj (he.symm.trans he')
    have hspent' : unspent.spentBlockIndex = k + 1 := hspent
    exact hspendable.2 (by omega)

end Simulation

/-- The rewards that the trials have left are those of dry runs. -/
theorem exists_trials_known (hE : E.Lawful) {blobs : List Bytes}
    {requests : List Request}
    (hhash : HashAssumptions E blobs (run E requests).chainView.tipIndex)
    (hknown : knownBlobs E requests ⊆ blobs) :
    ∃ s, Simulates E blobs (run E requests) (blocks E requests) s ∧
      ∀ name ∈ s.trialRewards, DryRunReward E requests name := by
  refine run_induction hE hhash
    (fun requests s => ∀ name ∈ s.trialRewards, DryRunReward E requests name)
    ?_ ?_ requests hknown le_rfl
  · exact nofun
  intro requests request server' response s s' _ hold hserver hresponse hstep
  have hkeep : ∀ name ∈ s.trialRewards,
      DryRunReward E (requests ++ [request]) name := by
    intro name hname
    obtain ⟨before, tx, after, rfl, haccepted, hmem⟩ := hold name hname
    exact ⟨before, tx, after ++ [request], by simp, haccepted, hmem⟩
  cases hstep with
  | refused e added => exact hkeep
  | skipped ms => exact hkeep
  | @pushed tx f a _ _ =>
      intro name hname
      rcases List.mem_append.mp hname with hnew | hold
      · refine ⟨requests, tx, [], rfl, hresponse, ?_⟩
        have hrewards := f.rewardCoins_eq
        have hclaims : f.claims = (run E requests).claimsWith tx :=
          claims_append_eq _ _
        rw [hclaims] at hrewards
        unfold dryRunRewards
        rw [hrewards]
        exact hnew
      · exact hkeep name hold
  | mined f a _ _ => exact hkeep

/-- After any run, the records and the deltas of the chain agree on every coin
that is not a reward of a dry run. -/
theorem spendable_iff_unspentSince (hE : E.Lawful) (requests : List Request)
    (hhash : HashAssumptions E (knownBlobs E requests)
      (run E requests).chainView.tipIndex)
    {name : Bytes32} (hreward : ¬ DryRunReward E requests name)
    (confirmed : ℕ) :
    (run E requests).SpendableSince name confirmed ↔
      UnspentSince E (blocks E requests) name confirmed := by
  obtain ⟨s, hs, htrials⟩ := exists_trials_known hE hhash
    (List.Subset.refl _)
  constructor
  · intro h
    exact Simulates.unspentSince_of_spendable hs h
      fun htrial => hreward (htrials name htrial)
  · exact Simulates.spendable_of_unspentSince hs

open Reference in
/-- The only dry run has paid other puzzle hashes. -/
theorem spendRequests_not_dryRunReward :
    ¬ DryRunReward environment spendRequests
      ((rewardCoin 2 (SizedBytes.fill 32 3) blockReward).name
        environment) := by
  rintro ⟨before, tx, after, hsplit, -, hname⟩
  rcases before with _ | ⟨first, _ | ⟨second, before⟩⟩
  · cases hsplit
  · obtain ⟨rfl, rfl, rfl⟩ : first = .nextBlock (puzzleHash [])
          (SizedBytes.fill 32 4) ∧ tx = spendBundle (coinbaseCoin []) [] ∧
        after = [.nextBlock (SizedBytes.fill 32 3) (SizedBytes.fill 32 4)] := by
      cases hsplit
      exact ⟨rfl, rfl, rfl⟩
    revert hname
    decide +kernel
  · rcases before with _ | ⟨third, before⟩
    · cases hsplit
    · simp [spendRequests, spendCoinbase, pendingSpend] at hsplit

open Reference in
theorem spendable_iff_unspentSince_reward :
    UnspentSince environment (blocks environment spendRequests)
      ((rewardCoin 2 (SizedBytes.fill 32 3) blockReward).name
        environment) 2 :=
  (spendable_iff_unspentSince environment_lawful spendRequests
    (hashAssumptions_of_append doubleSpend_hashAssumptions)
    spendRequests_not_dryRunReward 2).mp
    ⟨⟨2, 0⟩, by decide +kernel, rfl,
      ⟨Nat.two_pos, by decide +kernel⟩, fun h => lt_irrefl _ h.1⟩

end LedgerAPI

end LedgerSim
