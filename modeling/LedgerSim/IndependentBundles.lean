import LedgerSim.ClockLimit
import LedgerSim.JointSpends
import LedgerSim.ReferenceWallet

/-!
# Bundles that do not meet

A bundle that the server would accept without pending bundles can only be
refused on their account: when it spends one of their coins, when the fees add
up to too much, or when it or they spend a reward of their own dry runs.
-/

namespace LedgerSim

open SpeculativeLedger (State)

variable (E : Environment)

/-! ## Streams of programs -/

def Environment.Streams (x : SExp) : Prop :=
  ∃ blob, E.sexpToStream x = .ok blob

/-- A pair is streamed as its two halves. -/
def Environment.StreamsPairs : Prop :=
  ∀ x y, E.Streams (.pair x y) ↔ E.Streams x ∧ E.Streams y

variable {E}

theorem streams_ofList_iff (hpairs : E.StreamsPairs) {items : List SExp} :
    E.Streams (.ofList items) ↔
      E.Streams .null ∧ ∀ item ∈ items, E.Streams item := by
  induction items with
  | nil => simp [SExp.ofList]
  | cons item items ih =>
      rw [SExp.ofList, hpairs, ih, List.forall_mem_cons]
      tauto

theorem streams_program_iff (hE : E.Lawful) (hpairs : E.StreamsPairs)
    {bundle : SpendBundle} :
    E.Streams (bestSolutionProgram E bundle) ↔
      ∀ claim ∈ bundle.coinSolutions, E.Streams (solutionEntry E claim) := by
  have hempty : E.Streams (.ofList [E.quoteKeyword, .ofList []]) :=
    hE.sexpToStream_quote_nil
  unfold bestSolutionProgram
  simp only [streams_ofList_iff hpairs, List.forall_mem_cons,
    List.forall_mem_map] at hempty ⊢
  tauto

/-! ## Records and rewards -/

namespace LedgerAPI

variable (E) in
/-- Every record is that of a stored coin. -/
def RecordsStored (db : Database) : Prop :=
  ∀ name unspent, db.unspentForCoinName name = some unspent →
    ∃ coin : Coin, coin.name E = name ∧ coin.bytes E ∈ db.stored ∧
      coin.amount < maxCoinAmount

theorem RecordsStored.applied {chainView : ChainView}
    {bundles : List SpendBundle} {coinbasePuzzleHash feesPuzzleHash : Bytes32}
    {now : ℕ} {db : Database} (h : RecordsStored E db)
    (f : Farmed E chainView bundles coinbasePuzzleHash feesPuzzleHash now)
    (a : f.Accepted db) : RecordsStored E (f.applied a) := by
  have hold : ∀ {name : Bytes32} {old : Unspent},
      db.unspentForCoinName name = some old →
        ∃ coin : Coin, coin.name E = name ∧
          coin.bytes E ∈ (f.applied a).stored ∧
          coin.amount < maxCoinAmount := by
    intro name old hrecord
    obtain ⟨coin, hname, hstored, hamount⟩ := h name old hrecord
    exact ⟨coin, hname, (f.mem_applied_stored a).mpr
      (.inr (.inr (.inr hstored))), hamount⟩
  intro name unspent hrecord
  rw [f.applied_unspentForCoinName a, blockRecords] at hrecord
  by_cases hadded : name ∈ a.additions.map (Coin.name E)
  · obtain ⟨coin, hcoin, hname⟩ := List.mem_map.mp hadded
    exact ⟨coin, hname, (f.mem_applied_stored a).mpr
      (.inl (List.mem_map_of_mem hcoin)), a.amounts coin hcoin⟩
  · rw [if_neg hadded] at hrecord
    split at hrecord
    next =>
      obtain ⟨old, hrecord, -⟩ := Option.map_eq_some_iff.mp hrecord
      exact hold hrecord
    next => exact hold hrecord

theorem run_recordsStored (hE : E.Lawful) {blobs : List Bytes}
    {requests : List Request}
    (hhash : HashAssumptions E blobs (run E requests).chainView.tipIndex)
    (hknown : knownBlobs E requests ⊆ blobs) :
    ∃ s, Simulates E blobs (run E requests) (blocks E requests) s ∧
      RecordsStored E (run E requests).db := by
  refine run_induction hE hhash
    (fun requests _ => RecordsStored E (run E requests).db) ?_ ?_ requests
    hknown le_rfl
  · intro name unspent hrecord
    cases hrecord
  intro requests request server' response s s' _ hstored hserver _ hstep
  rw [hserver]
  cases hstep with
  | refused e added =>
      rw [db_put]
      intro name unspent hrecord
      rw [Database.addPreimages_unspentForCoinName] at hrecord
      obtain ⟨coin, hname, hcoin, hamount⟩ := hstored name unspent hrecord
      refine ⟨coin, hname, ?_, hamount⟩
      rw [Database.addPreimages_stored]
      exact List.mem_append_right _ hcoin
  | skipped ms => exact hstored
  | pushed f a _ _ =>
      rw [db_put]
      exact hstored.applied f a
  | mined f a _ _ =>
      rw [db_put]
      exact hstored.applied f a

theorem RecordsStored.confirmed (hE : E.Lawful) {blobs : List Bytes}
    (hfree : CollisionFree E blobs) {server : LedgerAPI}
    (h : RecordsStored E server.db)
    (hstored : ∀ blob ∈ server.db.stored, blob ∈ blobs) {coin : Coin}
    (hcoin : coin.bytes E ∈ blobs) {unspent : Unspent}
    (hrecord : server.db.unspentForCoinName (coin.name E) = some unspent)
    (hspendable : unspent.Spendable server.chainView.tipIndex) :
    server.Confirmed E coin ∧ coin.amount < maxCoinAmount := by
  obtain ⟨found, hname, hfound, hamount⟩ := h _ unspent hrecord
  obtain rfl := hfree.name_inj hE (hstored _ hfound) hcoin hname
  exact ⟨⟨hfound, unspent, hrecord, hspendable⟩, hamount⟩

/-- An accepted block that spends a coin with the next index for a parent
spends its own reward. -/
theorem claimed_reward (hE : E.Lawful) {blobs : List Bytes}
    {server : LedgerAPI} {chain : List (Header × Body)} {s : State Bytes32}
    (hhash : HashAssumptions E blobs server.chainView.tipIndex)
    (hs : Simulates E blobs server chain s) {bundles : List SpendBundle}
    {coinbasePuzzleHash feesPuzzleHash : Bytes32}
    (f : Farmed E server.chainView bundles coinbasePuzzleHash feesPuzzleHash
      server.now) (a : f.Accepted server.db)
    (hcovers : Farmed.Covers (E := E) blobs f.claims a.additions
      (f.stored server.db).hashPreimage) {claim : CoinSolution}
    (hclaim : claim ∈ f.claims) (hparent : claim.coin.parentCoinInfo =
      indexHash (server.chainView.tipIndex + 1)) :
    claim.coin ∈ [f.body.coinbaseCoin, f.body.feesCoin] := by
  have hfree := hhash.collisionFree
  have hindex := hhash.indexHash_notMem le_rfl
  obtain ⟨cpc, hcpc, hcoin, -⟩ :=
    (f.resolved_claims hE hfree a hcovers).exists_of_mem_left hclaim
  have hspendable := a.spendable cpc hcpc
  rw [hcoin] at hspendable
  rcases hspendable with hadded | ⟨unspent, hrecord, hspendable⟩
  · rcases mem_additions_iff.mp hadded with hreward | houtput
    · exact hreward
    -- an output's parent is a coin
    · have hknown := f.output_parent_known hE a hcovers.claimed houtput
      rw [hparent] at hknown
      exact absurd hknown hindex
  -- a record of a reward for the next index is not confirmed yet
  · have hentry : s.records (claim.coin.name E) = some unspent.entry := by
      rw [hs.records, recordsOf, hrecord]
      rfl
    have hroot := hs.inv.origin _ _ hentry
    rw [parentName_name hE hfree (hcovers.claimed claim hclaim), hparent]
      at hroot
    rcases hroot with hroot | ⟨p, hp, -⟩
    · have hconfirmed : unspent.entry.confirmed <
          server.chainView.tipIndex + 1 :=
        Nat.lt_succ_of_le hspendable.1.2
      have heq := indexHash_inj f.index_lt (hconfirmed.trans f.index_lt) hroot
      exact absurd hconfirmed heq.not_gt
    · exact absurd (hs.inv.mem_known _ p hp) hindex

end LedgerAPI

/-! ## Joining the mempool -/

/-- The claims of the pending bundles and of one more. -/
def LedgerAPI.claimsWith (server : LedgerAPI) (tx : SpendBundle) :
    List CoinSolution :=
  server.claims ++ tx.coinSolutions

variable (E) in
/-- The reward coins of a dry run with these claims. -/
def LedgerAPI.dryRunRewards (server : LedgerAPI)
    (claims : List CoinSolution) : List Coin :=
  rewardCoins E server.chainView.tipIndex claims dryRunCoinbasePuzzleHash
    dryRunFeesPuzzleHash

variable (E) in
/-- The bundle spends other coins than the pending ones, the fees of all stay
below the maximum of a coin, and a reward that is spent at once is one of the
dry run with the bundle. -/
structure Joins (server : LedgerAPI) (tx : SpendBundle) : Prop where
  disjoint : ∀ claim ∈ server.claims, ∀ claim' ∈ tx.coinSolutions,
    claim.coin ≠ claim'.coin
  fees : ∃ fees, claimedFees E (server.claimsWith tx) = .ok fees ∧
    fees < maxCoinAmount
  rewards : ∀ claim ∈ server.claimsWith tx, claim.coin.parentCoinInfo =
      indexHash (server.chainView.tipIndex + 1) →
    claim.coin ∈ server.dryRunRewards E (server.claimsWith tx)

/-- The bundle is signed, and its spends can be made in a block with these
rewards that removes at least these coins. -/
structure Fits (secrets : SecretKeys E) (blobs : List Bytes)
    (server : LedgerAPI) (rewards : List Coin) (removals : List Bytes32)
    (tx : SpendBundle) : Prop where
  signed : tx.Signed secrets
  streams : ∀ claim ∈ tx.coinSolutions, E.Streams (solutionEntry E claim)
  fees : ∃ fees, claimedFees E tx.coinSolutions = .ok fees ∧ 0 ≤ fees
  spends : ∃ s : JointSpends E server rewards removals tx.coinSolutions,
    ∀ coin ∈ s.outputs, coin.bytes E ∈ blobs

theorem claimedFees_append {claims claims' : List CoinSolution}
    {fees fees' : ℤ} (h : claimedFees E claims = .ok fees)
    (h' : claimedFees E claims' = .ok fees') :
    claimedFees E (claims ++ claims') = .ok (fees + fees') := by
  obtain ⟨outputs, houtputs, h⟩ := Except.bind_eq_ok_iff.mp h
  obtain ⟨lists, hlists, houtputs⟩ := Except.bind_eq_ok_iff.mp houtputs
  obtain ⟨outputs', houtputs', h'⟩ := Except.bind_eq_ok_iff.mp h'
  obtain ⟨lists', hlists', houtputs'⟩ := Except.bind_eq_ok_iff.mp houtputs'
  have hall := Except.mapM_append_eq_ok_iff.mpr
    ⟨lists, lists', hlists, hlists', rfl⟩
  have houtputs₂ : SpendBundle.additions E ⟨claims ++ claims', ⟨zero96⟩⟩ =
      .ok (lists ++ lists').flatten := Except.bind_eq_ok hall rfl
  apply Except.bind_eq_ok houtputs₂
  rw [← Except.ok.inj h, ← Except.ok.inj h', ← Except.ok.inj houtputs,
    ← Except.ok.inj houtputs']
  simp only [SpendBundle.removals, List.map_append, List.flatten_append,
    List.sum_append]
  congr 1
  ring

/-- Signed bundles are farmed, if the fees and the clock fit. -/
theorem exists_farmed_of_signed (hE : E.Lawful) (hpairs : E.StreamsPairs)
    {secrets : SecretKeys E} (laws : SigningLaws secrets)
    {chainView : ChainView} {bundles : List SpendBundle}
    (hsigned : ∀ bundle ∈ bundles, bundle.Signed secrets)
    (hstreams : ∀ claim ∈ bundles.flatMap SpendBundle.coinSolutions,
      E.Streams (solutionEntry E claim))
    (hindex : chainView.tipIndex + 1 < 256 ^ 32)
    (coinbasePuzzleHash feesPuzzleHash : Bytes32) {now timestamp : ℕ}
    (hclock : clockSeconds now = .ok timestamp) (hfits : timestamp < 2 ^ 64)
    {fees : ℤ} (hfees : claimedFees E
      (bundles.flatMap SpendBundle.coinSolutions) = .ok fees)
    (hrange : 0 ≤ fees ∧ fees < 2 ^ 64) :
    ∃ f : Farmed E chainView bundles coinbasePuzzleHash feesPuzzleHash now,
      f.fees = fees := by
  obtain ⟨bundle, hbundle, hsigned'⟩ := SpendBundle.Signed.aggregate laws
    hsigned
  have hclaims : bundle.coinSolutions =
      bundles.flatMap SpendBundle.coinSolutions := by
    obtain ⟨signature, -, h⟩ := Except.bind_eq_ok_iff.mp hbundle
    rw [← Except.ok.inj h]
  have hfees' : bundle.fees E = .ok fees := by
    unfold SpendBundle.fees SpendBundle.additions SpendBundle.removals
    rw [hclaims]
    exact hfees
  have hprogram : E.Streams (bestSolutionProgram E bundle) := by
    rw [streams_program_iff hE hpairs, hclaims]
    exact hstreams
  obtain ⟨bodyBlob, hbody⟩ : ∃ b, (farmedBody E (chainView.tipIndex + 1)
      bundle fees coinbasePuzzleHash feesPuzzleHash).bytes E = .ok b :=
    (exists_farmedBody_bytes_iff E).mpr ⟨hrange, hprogram⟩
  obtain ⟨headerBlob, hheader⟩ := exists_farmedHeader_bytes E chainView hfits
    (farmedBody E (chainView.tipIndex + 1) bundle fees coinbasePuzzleHash
      feesPuzzleHash) bodyBlob
  exact ⟨⟨timestamp, bundle, fees, bodyBlob, headerBlob, hclock, hindex,
    hbundle, hsigned'.validates laws, hfees', hbody, hheader⟩, rfl⟩

namespace LedgerAPI

section Joining

variable {secrets : SecretKeys E} {blobs : List Bytes}
  {requests : List Request} {tx : SpendBundle}

theorem claims_append_eq (server : LedgerAPI) (tx : SpendBundle) :
    (server.spendBundles ++ [tx]).flatMap SpendBundle.coinSolutions =
      server.claimsWith tx := by
  rw [List.flatMap_append, List.flatMap_singleton]
  rfl

theorem claimsWith_known
    (hknown : knownBlobs E (requests ++ [.pushTx tx]) ⊆ blobs) :
    ∀ claim ∈ (run E requests).claimsWith tx, claim.coin.bytes E ∈ blobs := by
  intro claim hclaim
  apply hknown
  rcases List.mem_append.mp hclaim with hold | hnew
  · exact knownBlobs_append _ _ (pending_known hold)
  · apply List.mem_append_right
    rw [List.flatMap_append, List.flatMap_singleton]
    exact List.mem_append_right _ (List.mem_map_of_mem hnew)

/-- The part of the pending bundles in the next dry run. -/
theorem exists_pending (hE : E.Lawful) (hpairs : E.StreamsPairs)
    (hhash : HashAssumptions E blobs (run E requests).chainView.tipIndex)
    (hknown : knownBlobs E requests ⊆ blobs) {rewards : List Coin}
    {removals : List Bytes32}
    (hremovals : claimedNames E (run E requests).claims ⊆ removals)
    (hrewards : ∀ claim ∈ (run E requests).claims,
      claim.coin.parentCoinInfo =
          indexHash ((run E requests).chainView.tipIndex + 1) →
        claim.coin ∈ rewards) :
    ∃ s : JointSpends E (run E requests) rewards removals
        (run E requests).claims,
      (∀ coin ∈ s.outputs, coin.bytes E ∈ blobs) ∧
      (∃ fees, claimedFees E (run E requests).claims = .ok fees ∧ 0 ≤ fees) ∧
      ∀ claim ∈ (run E requests).claims,
        E.Streams (solutionEntry E claim) := by
  obtain ⟨-, -, hrehearsal⟩ := exists_rehearsal hE requests hhash hknown
  by_cases hempty : (run E requests).spendBundles = []
  · have hclaims : (run E requests).claims = [] := by
      unfold claims
      rw [hempty]
      rfl
    rw [hclaims]
    exact ⟨⟨[], [], rfl, rfl, nofun, .nil, .nil, .nil, nofun⟩, nofun,
      ⟨0, rfl, le_rfl⟩, nofun⟩
  obtain ⟨r⟩ := hrehearsal hempty
  have hfree := hhash.collisionFree
  have hbody := (exists_farmedBody_bytes_iff E).mp ⟨_, r.farmed.body_bytes⟩
  refine ⟨.ofAccepted hE hfree hremovals r.now_le r.accepted r.covers ?_ ?_, ?_,
    ⟨r.farmed.fees, r.farmed.claimedFees_eq, hbody.1.1⟩, ?_⟩
  · intro claim hclaim
    obtain ⟨old, new, hold, hnew, hconfirmed, -⟩ := r.record claim hclaim
    refine ⟨old, hold, ?_⟩
    unfold confirmedAt
    rw [hnew]
    exact hconfirmed.symm
  · intro claim hclaim
    obtain ⟨-, new, -, hnew, -, hadded | hspendable⟩ := r.record claim hclaim
    · apply Or.inl
      rcases mem_additions_iff.mp hadded with hreward | houtput
      · apply List.mem_append_left
        apply hrewards claim hclaim
        rcases List.mem_pair.mp hreward with h | h <;> rw [h] <;> rfl
      · exact List.mem_append_right _ houtput
    · exact .inr ⟨r.stored claim hclaim, new, hnew, hspendable⟩
  · intro coin hcoin
    exact r.covers.added coin (mem_additions_iff.mpr (.inr hcoin))
  · have hprogram := (streams_program_iff hE hpairs).mp hbody.2
    rwa [r.farmed.coinSolutions_eq] at hprogram

/-- Answered or refused, a bundle's dry run is stored. -/
theorem WellFormed.dryRun_stored {server : LedgerAPI}
    (hserver : server.WellFormed E)
    (hvalid : validateSpendBundleSignature E tx = .ok true)
    (f : Farmed E server.chainView (server.spendBundles ++ [tx])
      dryRunCoinbasePuzzleHash dryRunFeesPuzzleHash server.now) :
    (f.stored server.db).stored ⊆
      (LedgerAPI.step E server (.pushTx tx)).db.stored := by
  rw [step_pushTx_db E server hvalid]
  unfold attempt
  rw [hserver.unspentDb]
  exact (newChainView_grows_of_farmed f hserver.cls).stored

theorem pushTx_accepted_of_answered {server : LedgerAPI}
    (h : ((handle E (.pushTx tx)).run server).1.toOption.isSome = true) :
    ((handle E (.pushTx tx)).run server).1 = .ok (.accepted tx) := by
  have hcases := handle_cases E server (.pushTx tx)
  generalize ((handle E (.pushTx tx)).run server).1 = response at h hcases ⊢
  generalize LedgerAPI.step E server (.pushTx tx) = server' at hcases
  cases hcases with
  | unsigned _ => cases h
  | bundleRefused _ _ => cases h
  | pushed _ _ => rfl

theorem pushTx_accepted_of_accepted (hE : E.Lawful) {server : LedgerAPI}
    (hserver : server.WellFormed E) (hfree : CollisionFree E blobs)
    (hgenesis : NoIndexHash E blobs 0)
    (hvalid : validateSpendBundleSignature E tx = .ok true)
    (f : Farmed E server.chainView (server.spendBundles ++ [tx])
      dryRunCoinbasePuzzleHash dryRunFeesPuzzleHash server.now)
    (a : f.Accepted server.db)
    (hclaims : ∀ claim ∈ f.claims, claim.coin.bytes E ∈ blobs)
    (hstored : ∀ blob ∈ (f.applied a).stored, blob ∈ blobs) :
    ((handle E (.pushTx tx)).run server).1 = .ok (.accepted tx) := by
  have hattempt : server.attempt E (server.spendBundles ++ [tx])
      dryRunCoinbasePuzzleHash dryRunFeesPuzzleHash =
        (.ok f.newView, server.heap.put server.storage (f.applied a)) := by
    unfold attempt
    rw [hserver.unspentDb]
    exact newChainView_of_accepted hE ⟨hserver.viewDb, hserver.genesisHash,
      hserver.cls, hserver.keyed, hfree, hgenesis⟩ f a hclaims hstored
  unfold handle
  rw [doPushTx_run, hvalid]
  simp only [hattempt]

theorem pushTx_accepted_of_joins (hE : E.Lawful) (hpairs : E.StreamsPairs)
    (laws : SigningLaws secrets)
    (hhash : HashAssumptions E blobs (run E requests).chainView.tipIndex)
    (hknown : knownBlobs E (requests ++ [.pushTx tx]) ⊆ blobs)
    (hrewards : ∀ coin ∈ (run E requests).dryRunRewards E
      ((run E requests).claimsWith tx), coin.bytes E ∈ blobs)
    (hsigned : ∀ bundle ∈ (run E requests).spendBundles,
      bundle.Signed secrets)
    (hindex : (run E requests).chainView.tipIndex + 1 < 256 ^ 32)
    {timestamp : ℕ} (hclock : clockSeconds (run E requests).now = .ok timestamp)
    (hfits : timestamp < 2 ^ 64)
    (htx : Fits secrets blobs (run E requests)
      ((run E requests).dryRunRewards E ((run E requests).claimsWith tx))
      (claimedNames E ((run E requests).claimsWith tx)) tx)
    (hjoins : Joins E (run E requests) tx) :
    ((handle E (.pushTx tx)).run (run E requests)).1 =
      .ok (.accepted tx) := by
  have hserver := run_wellFormed (E := E) requests
  have hfree := hhash.collisionFree
  obtain ⟨fees, hfees, hmaximum⟩ := hjoins.fees
  have hclaims := claimsWith_known hknown
  let rewards := (run E requests).dryRunRewards E
    ((run E requests).claimsWith tx)
  let removals := claimedNames E ((run E requests).claimsWith tx)
  have hremovals : claimedNames E (run E requests).claims ⊆ removals :=
    List.map_subset _ (List.subset_append_left _ _)
  obtain ⟨pending, hpendingOutputs, ⟨pendingFees, hpendingFees, hnonneg⟩,
    hpendingStreams⟩ := @exists_pending E blobs requests hE hpairs hhash
      (fun blob hblob => hknown (knownBlobs_append _ _ hblob)) rewards removals
      hremovals fun claim hclaim => hjoins.rewards claim
        (List.mem_append_left _ hclaim)
  obtain ⟨added, haddedOutputs⟩ := htx.spends
  obtain ⟨txFees, htxFees, htxNonneg⟩ := htx.fees
  -- the dry run with the bundle can be farmed
  have hsum := Except.ok.inj
    (hfees.symm.trans (claimedFees_append hpendingFees htxFees))
  have hrange : 0 ≤ fees ∧ fees < 2 ^ 64 := by
    have hmax : maxCoinAmount = 2 ^ 48 := rfl
    omega
  have hbundles : ∀ bundle ∈ (run E requests).spendBundles ++ [tx],
      bundle.Signed secrets := by
    simpa [or_imp, forall_and] using And.intro hsigned htx.signed
  obtain ⟨f, hf⟩ := exists_farmed_of_signed hE hpairs laws
    hbundles (by
      rw [claims_append_eq]
      exact List.forall_mem_append.mpr ⟨hpendingStreams, htx.streams⟩)
    hindex dryRunCoinbasePuzzleHash dryRunFeesPuzzleHash hclock hfits
    ((claims_append_eq _ _).symm ▸ hfees) hrange
  have hfclaims : f.claims = (run E requests).claimsWith tx :=
    claims_append_eq _ _
  have hfrewards : rewards = [f.body.coinbaseCoin, f.body.feesCoin] := by
    rw [← f.rewardCoins_eq, hfclaims]
    rfl
  -- and both parts together are accepted
  obtain ⟨both, hboth⟩ : ∃ both : JointSpends E (run E requests) rewards
      removals ((run E requests).claimsWith tx),
      ∀ coin ∈ both.outputs, coin.bytes E ∈ blobs :=
    ⟨pending.append hE hfree added hclaims hjoins.disjoint,
      List.forall_mem_append.mpr ⟨hpendingOutputs, haddedOutputs⟩⟩
  have hstored : ∀ blob ∈ (f.stored (run E requests).db).stored,
      blob ∈ blobs := by
    intro blob hblob
    apply hknown
    apply List.mem_append_left
    rw [run_append]
    exact hserver.dryRun_stored (htx.signed.validates laws) f hblob
  have hpuzzles : dryRunCoinbasePuzzleHash ≠ dryRunFeesPuzzleHash := by decide
  obtain ⟨a, houtputs⟩ := both.exists_accepted hE hserver hfree
    (hhash.indexHash_notMem le_rfl) f hfclaims (List.Subset.refl _)
    hfrewards.symm
    (fun h => hpuzzles (congrArg Coin.puzzleHash h)) (hf ▸ hmaximum) hclaims
    (List.forall_mem_append.mpr ⟨hrewards, hboth⟩) hstored
  apply pushTx_accepted_of_accepted hE hserver hfree
    (hhash.noIndexHash.mono (List.Subset.refl _) (Nat.zero_le _))
    (htx.signed.validates laws) f a (hfclaims ▸ hclaims)
  intro blob hblob
  rcases (f.mem_applied_stored a).mp hblob with hadded | hold
  · obtain ⟨coin, hcoin, rfl⟩ := List.mem_map.mp hadded
    rcases mem_additions_iff.mp hcoin with hreward | houtput
    · rw [← hfrewards] at hreward
      exact hrewards coin hreward
    · exact hboth coin (houtputs ▸ houtput)
  · exact hstored blob (by simpa [Farmed.stored] using hold)

/-- The dry run that accepted a bundle. -/
theorem exists_dryRun_of_pushTx_accepted (hE : E.Lawful)
    (hhash : HashAssumptions E blobs (run E requests).chainView.tipIndex)
    (hknown : knownBlobs E (requests ++ [.pushTx tx]) ⊆ blobs)
    (haccepted : ((handle E (.pushTx tx)).run (run E requests)).1 =
      .ok (.accepted tx)) :
    ∃ (f : Farmed E (run E requests).chainView
        ((run E requests).spendBundles ++ [tx]) dryRunCoinbasePuzzleHash
        dryRunFeesPuzzleHash (run E requests).now)
      (a : f.Accepted (run E requests).db) (s : State Bytes32),
      Simulates E blobs (run E requests) (blocks E requests) s ∧
        Farmed.Covers (E := E) blobs f.claims a.additions
          (f.stored (run E requests).db).hashPreimage ∧
        f.claims = (run E requests).claimsWith tx := by
  obtain ⟨s, hs, -⟩ := exists_rehearsal hE requests hhash
    (fun blob hblob => hknown (knownBlobs_append _ _ hblob))
  obtain ⟨s', hstep⟩ := exists_speculativeStep hE hhash requests (.pushTx tx)
    hknown le_rfl hs
  rw [haccepted] at hstep
  generalize run E (requests ++ [.pushTx tx]) = server' at hstep
  cases hstep with
  | pushed f a hcovers _ =>
      exact ⟨f, a, s, hs, hcovers, claims_append_eq _ _⟩

/-- A bundle that has been accepted did join. -/
theorem joins_of_pushTx_accepted (hE : E.Lawful)
    (hhash : HashAssumptions E blobs (run E requests).chainView.tipIndex)
    (hknown : knownBlobs E (requests ++ [.pushTx tx]) ⊆ blobs)
    (haccepted : ((handle E (.pushTx tx)).run (run E requests)).1 =
      .ok (.accepted tx)) :
    Joins E (run E requests) tx := by
  obtain ⟨f, a, s, hs, hcovers, hclaims⟩ :=
    exists_dryRun_of_pushTx_accepted hE hhash hknown haccepted
  have hremovals : (claimedNames E
      ((run E requests).claimsWith tx)).Nodup := by
    have hnodup := a.removals_nodup
    change a.removals.Nodup at hnodup
    rwa [f.removals_eq hE a, hclaims] at hnodup
  constructor
  · intro claim hclaim claim' hclaim' heq
    unfold claimedNames claimsWith at hremovals
    rw [List.map_append, List.nodup_append] at hremovals
    apply hremovals.2.2 _ (List.mem_map_of_mem hclaim) _
      (List.mem_map_of_mem hclaim')
    rw [heq]
  · refine ⟨f.fees, hclaims ▸ f.claimedFees_eq, ?_⟩
    exact a.amounts f.body.feesCoin
      (List.mem_cons_of_mem _ List.mem_cons_self)
  · intro claim hclaim hparent
    have hreward := claimed_reward hE hhash hs f a hcovers
      (hclaims ▸ hclaim) hparent
    rw [← f.rewardCoins_eq, hclaims] at hreward
    exact hreward

/-- The server as it would be without pending bundles. -/
def alone (server : LedgerAPI) : LedgerAPI :=
  { server with spendBundles := [] }

theorem WellFormed.alone {server : LedgerAPI} (h : server.WellFormed E) :
    server.alone.WellFormed E :=
  h.of_grows rfl rfl h.viewDb rfl (.refl E _)

/-- The dry run of a bundle that is accepted without the pending ones. -/
theorem exists_dryRun_alone (hE : E.Lawful)
    (hhash : HashAssumptions E blobs (run E requests).chainView.tipIndex)
    (hknown : knownBlobs E (requests ++ [.pushTx tx]) ⊆ blobs)
    (hstored : (step E (run E requests).alone (.pushTx tx)).db.stored ⊆ blobs)
    (haccepted : ((handle E (.pushTx tx)).run (run E requests).alone).1 =
      .ok (.accepted tx)) :
    ∃ (f : Farmed E (run E requests).chainView [tx] dryRunCoinbasePuzzleHash
        dryRunFeesPuzzleHash (run E requests).now)
      (a : f.Accepted (run E requests).db),
      ∀ blob ∈ (f.applied a).stored, blob ∈ blobs := by
  have hserver := (run_wellFormed (E := E) requests).alone
  have houtcome := hserver.outcome hE hhash.collisionFree
    (hhash.noIndexHash.mono (List.Subset.refl _) (Nat.zero_le _))
    (.pushTx tx) nofun (by
      intro blob hblob
      obtain ⟨claim, hclaim, rfl⟩ := List.mem_map.mp hblob
      exact claimsWith_known hknown claim (List.mem_append_right _ hclaim))
    hstored
  rw [haccepted] at houtcome
  generalize step E (run E requests).alone (.pushTx tx) = server'
    at houtcome hstored
  cases houtcome with
  | pushed f a =>
      rw [db_put] at hstored
      exact ⟨f, a, hstored⟩

/-- What is accepted alone fits beside other bundles, if the rewards that it
spends stay the same. -/
theorem fits_of_accepted (hE : E.Lawful) (hpairs : E.StreamsPairs)
    (hhash : HashAssumptions E blobs (run E requests).chainView.tipIndex)
    (hknown : knownBlobs E (requests ++ [.pushTx tx]) ⊆ blobs)
    (hsigned : tx.Signed secrets)
    (f : Farmed E (run E requests).chainView [tx] dryRunCoinbasePuzzleHash
      dryRunFeesPuzzleHash (run E requests).now)
    (a : f.Accepted (run E requests).db)
    (hstored : ∀ blob ∈ (f.applied a).stored, blob ∈ blobs)
    {rewards : List Coin} {removals : List Bytes32}
    (hremovals : claimedNames E tx.coinSolutions ⊆ removals)
    (hrewards : ∀ claim ∈ tx.coinSolutions, claim.coin.parentCoinInfo =
        indexHash ((run E requests).chainView.tipIndex + 1) →
      claim.coin ∈ rewards) :
    Fits secrets blobs (run E requests) rewards removals tx := by
  have hserver := run_wellFormed (E := E) requests
  have hfree := hhash.collisionFree
  have hclaims : f.claims = tx.coinSolutions := List.append_nil _
  have hclaimed : ∀ claim ∈ f.claims, claim.coin.bytes E ∈ blobs := by
    intro claim hclaim
    rw [hclaims] at hclaim
    exact claimsWith_known hknown claim (List.mem_append_right _ hclaim)
  have hcovers := f.covers hserver.keyed a hclaimed hstored
  have hbody := (exists_farmedBody_bytes_iff E).mp ⟨_, f.body_bytes⟩
  have hspendable : ∀ claim ∈ f.claims, claim.coin ∈ a.additions ∨
      ∃ unspent, (run E requests).db.unspentForCoinName
          (claim.coin.name E) = some unspent ∧
        unspent.Spendable (run E requests).chainView.tipIndex := by
    intro claim hclaim
    obtain ⟨npc, -, -, -, -, -, cpc, hcpc, hcoin⟩ :=
      (f.checked_claims hE hfree a hcovers).exists_of_mem_left hclaim
    exact hcoin ▸ a.spendable cpc hcpc
  refine ⟨hsigned, ?_, ⟨f.fees, hclaims ▸ f.claimedFees_eq, hbody.1.1⟩, ?_⟩
  · have hprogram := (streams_program_iff hE hpairs).mp hbody.2
    rwa [f.coinSolutions_eq, hclaims] at hprogram
  rw [← hclaims] at hremovals hrewards ⊢
  obtain ⟨-, -, hrecords⟩ := run_recordsStored hE hhash
    (fun blob hblob => hknown (knownBlobs_append _ _ hblob))
  refine ⟨.ofAccepted hE hfree hremovals le_rfl a hcovers ?_ ?_, ?_⟩
  · intro claim hclaim
    unfold confirmedAt
    cases hrecord : (run E requests).db.unspentForCoinName
        (claim.coin.name E) with
    | some unspent => exact ⟨unspent, overlay_of_top hrecord, rfl⟩
    | none =>
        rcases hspendable claim hclaim with hadded | ⟨unspent, hfound, -⟩
        · refine ⟨⟨(run E requests).chainView.tipIndex + 1, 0⟩, ?_, rfl⟩
          rw [overlay_of_top_none hrecord, ramUnspentDB_get,
            if_pos (List.mem_map_of_mem hadded)]
        · rw [hrecord] at hfound
          cases hfound
  · intro claim hclaim
    rcases hspendable claim hclaim with hadded | ⟨unspent, hfound, hopen⟩
    · apply Or.inl
      rcases mem_additions_iff.mp hadded with hreward | houtput
      · apply List.mem_append_left
        apply hrewards claim hclaim
        rcases List.mem_pair.mp hreward with h | h <;> rw [h] <;> rfl
      · exact List.mem_append_right _ houtput
    · apply Or.inr
      refine (hrecords.confirmed hE hfree ?_ (hclaimed claim hclaim) hfound
        hopen).1
      intro blob hblob
      exact hknown (knownBlobs_append _ _ (List.mem_append_left _ hblob))
  · intro coin hcoin
    exact hcovers.added coin (mem_additions_iff.mpr (.inr hcoin))

end Joining

variable (E) in
/-- What the run, the dry runs with and without the pending bundles, and their
rewards show to the hash function. -/
def joinBlobs (requests : List Request) (tx : SpendBundle) : List Bytes :=
  knownBlobs E (requests ++ [.pushTx tx]) ++
    (step E (run E requests).alone (.pushTx tx)).db.stored ++
    ((run E requests).dryRunRewards E ((run E requests).claimsWith tx)).map
      (Coin.bytes E)

/-- After any run, a bundle that would be accepted without the pending bundles
is accepted with them exactly when it joins them. -/
theorem independent_bundle_accepted_iff (hE : E.Lawful)
    (hpairs : E.StreamsPairs) {secrets : SecretKeys E}
    (laws : SigningLaws secrets) (requests : List Request) (tx : SpendBundle)
    (hhash : HashAssumptions E (joinBlobs E requests tx)
      (run E requests).chainView.tipIndex)
    (hsigned : ∀ bundle ∈ tx :: (run E requests).spendBundles,
      bundle.Signed secrets)
    (halone : ((handle E (.pushTx tx)).run (run E requests).alone).1 =
      .ok (.accepted tx)) :
    ((handle E (.pushTx tx)).run (run E requests)).1 =
        .ok (.accepted tx) ↔
      Joins E (run E requests) tx := by
  have hknown : knownBlobs E (requests ++ [.pushTx tx]) ⊆
      joinBlobs E requests tx :=
    fun blob hblob => List.mem_append_left _ (List.mem_append_left _ hblob)
  have hrewards : ∀ coin ∈ (run E requests).dryRunRewards E
      ((run E requests).claimsWith tx),
      coin.bytes E ∈ joinBlobs E requests tx :=
    fun coin hcoin => List.mem_append_right _ (List.mem_map_of_mem hcoin)
  obtain ⟨htx, hpending⟩ := List.forall_mem_cons.mp hsigned
  obtain ⟨f, a, hstored⟩ := exists_dryRun_alone hE hhash hknown
    (fun blob hblob => List.mem_append_left _ (List.mem_append_right _ hblob))
    halone
  obtain ⟨timestamp, hclock, hfits⟩ := clockSeconds_fits_iff.mpr f.now_lt
  constructor
  · exact joins_of_pushTx_accepted hE hhash hknown
  · intro hjoins
    apply pushTx_accepted_of_joins hE hpairs laws hhash hknown hrewards hpending
      f.index_lt hclock hfits _ hjoins
    apply fits_of_accepted hE hpairs hhash hknown htx f a hstored
    · exact List.map_subset _ (List.subset_append_right _ _)
    · exact fun claim hclaim => hjoins.rewards claim
        (List.mem_append_right _ hclaim)

end LedgerAPI

namespace Reference

theorem walletEnvironment_streamsPairs : walletEnvironment.StreamsPairs := by
  intro x y
  change (∃ blob, sexpToStream (.pair x y) = .ok blob) ↔
    (∃ blob, sexpToStream x = .ok blob) ∧ ∃ blob, sexpToStream y = .ok blob
  rw [sexpToStream]
  simp only [Except.bind_eq_ok_iff, Except.ok.injEq]
  constructor
  · rintro ⟨blob, first, hfirst, rest, hrest, -⟩
    exact ⟨⟨first, hfirst⟩, rest, hrest⟩
  · rintro ⟨⟨first, hfirst⟩, rest, hrest⟩
    exact ⟨_, first, hfirst, rest, hrest, rfl⟩

/-- A bundle of the wallet is pending, and its next one spends another
reward. -/
def twoRewards : List Request :=
  [walletNextBlock, walletNextBlock, .pushTx (walletBundle 1)]

theorem walletBundle_signed (blockIndex : ℕ) :
    (walletBundle blockIndex).Signed walletSecrets := by
  obtain ⟨solution, hsolution⟩ : ∃ solution, walletSolution = .ok solution :=
    Except.toOption_isSome_iff.mp (by decide +kernel)
  obtain ⟨signature, hsignature⟩ : ∃ signature,
      (walletSolution >>= walletKeychain.signatureForSolution) =
        .ok signature :=
    Except.toOption_isSome_iff.mp (by decide +kernel)
  rw [hsolution, Except.ok_bind] at hsignature
  have hbuild : walletKeychain.buildSpendBundle (walletCoin blockIndex)
      solution = .ok ⟨[⟨walletCoin blockIndex, solution⟩], signature⟩ :=
    Except.bind_eq_ok hsignature rfl
  have hbundle : walletBundle blockIndex =
      ⟨[⟨walletCoin blockIndex, solution⟩], signature⟩ := by
    unfold walletBundle
    rw [hsolution, Except.ok_bind, hbuild]
    rfl
  rw [hbundle]
  exact .of_buildSpendBundle walletSecrets_laws hbuild

open LedgerAPI

/-- What the kernel evaluates of the state after the requests. -/
theorem twoRewards_state :
    (run walletEnvironment twoRewards).spendBundles = [walletBundle 1] ∧
    (∀ claim ∈ (run walletEnvironment twoRewards).claims,
      ∀ claim' ∈ (walletBundle 2).coinSolutions, claim.coin ≠ claim'.coin) ∧
    (claimedFees walletEnvironment
      ((run walletEnvironment twoRewards).claimsWith
        (walletBundle 2))).toOption = some (2 * (blockReward - 5)) ∧
    (∀ claim ∈ (run walletEnvironment twoRewards).claimsWith (walletBundle 2),
      claim.coin.parentCoinInfo = indexHash
        ((run walletEnvironment twoRewards).chainView.tipIndex + 1) →
      claim.coin ∈ (run walletEnvironment twoRewards).dryRunRewards
        walletEnvironment
        ((run walletEnvironment twoRewards).claimsWith (walletBundle 2))) ∧
    ((handle walletEnvironment (.pushTx (walletBundle 2))).run
      (run walletEnvironment twoRewards).alone).1.toOption.isSome = true ∧
    HashChecks walletEnvironment
      (joinBlobs walletEnvironment twoRewards (walletBundle 2))
      (run walletEnvironment twoRewards).chainView.tipIndex := by
  decide +kernel

theorem twoRewards_signed : ∀ bundle ∈
    walletBundle 2 :: (run walletEnvironment twoRewards).spendBundles,
      bundle.Signed walletSecrets := by
  rw [twoRewards_state.1]
  simp [walletBundle_signed]

theorem twoRewards_alone :
    ((handle walletEnvironment (.pushTx (walletBundle 2))).run
        (run walletEnvironment twoRewards).alone).1 =
      .ok (.accepted (walletBundle 2)) :=
  pushTx_accepted_of_answered twoRewards_state.2.2.2.2.1

theorem twoRewards_hashAssumptions : HashAssumptions walletEnvironment
    (joinBlobs walletEnvironment twoRewards (walletBundle 2))
    (run walletEnvironment twoRewards).chainView.tipIndex :=
  twoRewards_state.2.2.2.2.2.assumptions

theorem twoRewards_joins : Joins walletEnvironment
    (run walletEnvironment twoRewards) (walletBundle 2) where
  disjoint := twoRewards_state.2.1
  fees := ⟨_, Except.toOption_eq_some_iff.mp twoRewards_state.2.2.1,
    by decide⟩
  rewards := twoRewards_state.2.2.2.1

end Reference

open Reference in
theorem LedgerAPI.independent_bundle_accepted_iff_wallet :
    ((handle walletEnvironment (.pushTx (walletBundle 2))).run
        (run walletEnvironment twoRewards)).1 =
          .ok (.accepted (walletBundle 2)) :=
  (independent_bundle_accepted_iff walletEnvironment_lawful
    walletEnvironment_streamsPairs walletSecrets_laws twoRewards
    (walletBundle 2) twoRewards_hashAssumptions twoRewards_signed
    twoRewards_alone).mpr twoRewards_joins

end LedgerSim
