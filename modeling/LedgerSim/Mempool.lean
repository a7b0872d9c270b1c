import LedgerSim.TimeLocks
import LedgerSim.TipView

/-!
# Farming the mempool

A bundle is accepted after a dry run: the server farms a block of all pending
bundles with two fixed puzzle hashes.  The block that `do_next_block` farms
from the same bundles differs from the last dry run in its reward coins, its
clock, and the records that the dry runs have left.  All checks are insensitive
to the last two; the reward coins can make it fail.
-/

namespace LedgerSim

open SpeculativeLedger (State)

variable (E : Environment)

/-! ## Checking conditions again -/

/-- The context of a later check of the same spends: the clock may have
advanced, and the records may have been marked. -/
structure ConditionContext.Later (coins : List Coin)
    (context later : ConditionContext) : Prop where
  blockIndex : later.blockIndex = context.blockIndex
  removals : later.removals = context.removals
  creationTime : context.creationTime ≤ later.creationTime
  confirmed : ∀ coin ∈ coins, ∃ unspent unspent' : Unspent,
    context.coinToUnspent.get (coin.name E) = some (some unspent) ∧
      later.coinToUnspent.get (coin.name E) = some (some unspent') ∧
      unspent'.confirmedBlockIndex = unspent.confirmedBlockIndex

section Later

variable {E} {coins : List Coin} {context later : ConditionContext}

theorem ConditionContext.Later.confirmed_eq
    (hlater : context.Later E coins later) {coin : Coin} (hcoin : coin ∈ coins) :
    later.confirmed E coin = context.confirmed E coin := by
  obtain ⟨unspent, unspent', hget, hget', hconfirmed⟩ :=
    hlater.confirmed coin hcoin
  unfold ConditionContext.confirmed
  rw [hget, hget']
  exact congrArg some hconfirmed

theorem checkSolutions_of_later {cpcList : List Cpc}
    {hashKeyPairs : List AggsigPair}
    (hlater : context.Later E (cpcList.map Cpc.coin) later)
    (h : checkSolutions E context cpcList = .ok hashKeyPairs) :
    checkSolutions E later cpcList = .ok hashKeyPairs := by
  rw [checkSolutions_split_ok_iff] at h ⊢
  obtain ⟨hchecks, hpairs⟩ := h
  refine ⟨fun cpc hcpc => ?_, hpairs⟩
  have hremovals : context.removals ⊆ later.removals := by
    rw [hlater.removals]
    exact List.Subset.refl _
  have hconfirmed := hlater.confirmed_eq (List.mem_map_of_mem hcpc)
  exact checkConditionsDict_of_later hlater.blockIndex.ge hlater.creationTime
    hremovals hconfirmed (hchecks cpc hcpc)

end Later

/-! ## Farming again -/

theorem exists_farmedBody_bytes_iff {blockIndex : ℕ} {bundle : SpendBundle}
    {fees : ℤ} {coinbasePuzzleHash feesPuzzleHash : Bytes32} :
    (∃ b, (farmedBody E blockIndex bundle fees coinbasePuzzleHash
        feesPuzzleHash).bytes E = .ok b) ↔
      (0 ≤ fees ∧ fees < 2 ^ 64) ∧
        ∃ b, E.sexpToStream (bestSolutionProgram E bundle) = .ok b := by
  have hreward : 0 ≤ blockReward ∧ blockReward < 2 ^ 64 := by decide
  have hcost : (0 : ℤ) ≤ 0 ∧ (0 : ℤ) < 2 ^ 64 := by decide
  rw [Body.exists_bytes_iff, Coin.exists_stream_iff, Coin.exists_stream_iff]
  constructor
  · rintro ⟨-, hfees, hprogram, -⟩
    exact ⟨hfees, hprogram⟩
  · rintro ⟨hfees, hprogram⟩
    exact ⟨hreward, hfees, hprogram, hcost⟩

theorem exists_farmedHeader_bytes (chainView : ChainView) {timestamp : ℕ}
    (hfits : timestamp < 2 ^ 64) (body : Body) (bodyBlob : Bytes) :
    ∃ b, (farmedHeader E chainView timestamp body bodyBlob).bytes = .ok b := by
  have hrange : (0 : ℤ) ≤ timestamp ∧ (timestamp : ℤ) < 2 ^ 64 :=
    ⟨Int.natCast_nonneg _, by exact_mod_cast hfits⟩
  exact Header.exists_bytes_iff.mpr hrange

section Farming

variable {E} {chainView : ChainView} {spendBundles : List SpendBundle}
  {coinbasePuzzleHash feesPuzzleHash : Bytes32} {now timestamp : ℕ}

/-- What can be farmed once can be farmed with other puzzle hashes and at
another time. -/
theorem Farmed.exists_again (f : Farmed E chainView spendBundles
      coinbasePuzzleHash feesPuzzleHash now)
    (coinbasePuzzleHash' feesPuzzleHash' : Bytes32) {now' : ℕ}
    (htimestamp : clockSeconds now' = .ok timestamp)
    (hfits : timestamp < 2 ^ 64) :
    ∃ f' : Farmed E chainView spendBundles coinbasePuzzleHash' feesPuzzleHash'
      now', f'.bundle = f.bundle ∧ f'.fees = f.fees := by
  obtain ⟨bodyBlob, hbody⟩ := (exists_farmedBody_bytes_iff E).mpr
    ((exists_farmedBody_bytes_iff E).mp ⟨_, f.body_bytes⟩)
  obtain ⟨headerBlob, hheader⟩ := exists_farmedHeader_bytes E chainView hfits
    (farmedBody E (chainView.tipIndex + 1) f.bundle f.fees
      coinbasePuzzleHash' feesPuzzleHash') bodyBlob
  exact ⟨⟨timestamp, f.bundle, f.fees, bodyBlob, headerBlob, htimestamp,
    f.index_lt, f.bundle_eq, f.signed, f.fees_eq, hbody, hheader⟩, rfl, rfl⟩

theorem exists_farmed_nil (hE : E.Lawful) (hempty : spendBundles = [])
    (hindex : chainView.tipIndex + 1 < 256 ^ 32)
    (coinbasePuzzleHash feesPuzzleHash : Bytes32)
    (htimestamp : clockSeconds now = .ok timestamp)
    (hfits : timestamp < 2 ^ 64) :
    Nonempty (Farmed E chainView spendBundles coinbasePuzzleHash feesPuzzleHash
      now) := by
  subst hempty
  let bundle : SpendBundle := ⟨[], ⟨zero96⟩⟩
  obtain ⟨bodyBlob, hbody⟩ : ∃ b, (farmedBody E (chainView.tipIndex + 1)
      bundle 0 coinbasePuzzleHash feesPuzzleHash).bytes E = .ok b :=
    (exists_farmedBody_bytes_iff E).mpr
      ⟨by decide, hE.sexpToStream_quote_nil⟩
  obtain ⟨headerBlob, hheader⟩ := exists_farmedHeader_bytes E chainView hfits
    (farmedBody E (chainView.tipIndex + 1) bundle 0 coinbasePuzzleHash
      feesPuzzleHash) bodyBlob
  exact ⟨⟨timestamp, bundle, 0, bodyBlob, headerBlob, htimestamp, hindex, rfl,
    rfl, rfl, hbody, hheader⟩⟩

theorem exists_accepted_nil (hE : E.Lawful) (hempty : spendBundles = [])
    (f : Farmed E chainView spendBundles coinbasePuzzleHash feesPuzzleHash now)
    (db : Database)
    (hnames : f.body.coinbaseCoin.name E ≠ f.body.feesCoin.name E) :
    ∃ a : f.Accepted db, a.outputs = [] := by
  subst hempty
  have hclaims : f.claims = [] := rfl
  have hnpcs : namePuzzleConditionsList E f.body.solutionProgram = .ok [] := by
    rw [f.npcsOf_claims hE, hclaims]
    rfl
  have hfees : f.fees = 0 := by
    have heq := f.claimedFees_eq
    rw [hclaims] at heq
    exact (Except.ok.inj heq).symm
  refine ⟨{
    npcList := [], outputs := [], cpcList := [], hashKeyPairs := []
    npcList_eq := hnpcs, outputs_eq := rfl, amounts := ?_
    additions_nodup := ?_, removals_nodup := List.nodup_nil, resolved := rfl
    puzzleHash := by simp, spendable := by simp, fees := ?_
    solutions := rfl, signature := rfl }, rfl⟩
  · intro coin hcoin
    rcases List.mem_pair.mp hcoin with rfl | rfl
    · exact (by decide : blockReward < maxCoinAmount)
    · change f.fees < maxCoinAmount
      rw [hfees]
      decide
  · simpa using hnames
  · change blockReward + (f.fees + 0) - 0 = blockReward
    rw [hfees]
    ring

end Farming

/-! ## The last dry run -/

/-- The dry run that accepted the pending bundles, and what it has left in the
database. -/
structure Rehearsal (blobs : List Bytes) (server : LedgerAPI) where
  now : ℕ
  db : Database
  farmed : Farmed E server.chainView server.spendBundles
    dryRunCoinbasePuzzleHash dryRunFeesPuzzleHash now
  accepted : farmed.Accepted db
  now_le : now ≤ server.now
  covers : Farmed.Covers (E := E) blobs farmed.claims accepted.additions
    (farmed.stored db).hashPreimage
  stored : ∀ claim ∈ server.claims, claim.coin.bytes E ∈ server.db.stored
  record : ∀ claim ∈ server.claims, ∃ old new : Unspent,
    overlay db.unspentForCoinName
        (ramUnspentDB E accepted.additions
          (server.chainView.tipIndex + 1)).get (claim.coin.name E) =
      some old ∧
    server.db.unspentForCoinName (claim.coin.name E) = some new ∧
    new.confirmedBlockIndex = old.confirmedBlockIndex ∧
    (claim.coin ∈ accepted.additions ∨
      new.Spendable server.chainView.tipIndex)

section Rehearsal

variable {E} {blobs : List Bytes} {server : LedgerAPI}
  {chain : List (Header × Body)} {s : State Bytes32}

def Rehearsal.later (r : Rehearsal E blobs server) (heap : Heap) (now : ℕ)
    (hnow : server.now ≤ now)
    (hrecords : (heap server.storage).unspentForCoinName =
      server.db.unspentForCoinName)
    (hstored : server.db.stored ⊆ (heap server.storage).stored) :
    Rehearsal E blobs { server with heap := heap, now := now } where
  now := r.now
  db := r.db
  farmed := r.farmed
  accepted := r.accepted
  now_le := r.now_le.trans hnow
  covers := r.covers
  stored claim hclaim := hstored (r.stored claim hclaim)
  record claim hclaim := by
    obtain ⟨old, new, hold, hnew, hrest⟩ := r.record claim hclaim
    exact ⟨old, new, hold, (congrFun hrecords _).trans hnew, hrest⟩

theorem Farmed.claim_stored (hE : E.Lawful) (hfree : CollisionFree E blobs)
    {chainView : ChainView} {spendBundles : List SpendBundle}
    {coinbasePuzzleHash feesPuzzleHash : Bytes32} {now : ℕ}
    {f : Farmed E chainView spendBundles coinbasePuzzleHash feesPuzzleHash now}
    {db : Database} (hkeyed : db.Keyed E) (a : f.Accepted db)
    (hcovers : Farmed.Covers (E := E) blobs f.claims a.additions
      (f.stored db).hashPreimage)
    {claim : CoinSolution} (hclaim : claim ∈ f.claims) :
    claim.coin.bytes E ∈ (f.applied a).stored := by
  have hremoved : claim.coin.name E ∈ a.removals := by
    rw [f.removals_eq hE a]
    exact List.mem_map.mpr ⟨claim, hclaim, rfl⟩
  obtain ⟨cpc, -, hobj⟩ := a.exists_cpc hremoved
  have hcoin := hcovers.resolve hE hfree a.additions_nodup hclaim hobj
  rw [f.mem_applied_stored a]
  rcases coinPointerObj_overlay E hE a.additions_nodup hobj with
    ⟨hadded, -⟩ | ⟨-, blob, hblob, -⟩
  · rw [hcoin] at hadded
    exact .inl (List.mem_map_of_mem hadded)
  · obtain ⟨hmem, hhash⟩ := hcovers.stored _ blob hblob
    obtain rfl := hfree _ hmem _ (hcovers.claimed claim hclaim) hhash
    have hkeyed' := (hkeyed.addPreimage E f.headerBlob).addPreimage E f.bodyBlob
    refine .inr ?_
    simpa [Farmed.stored] using (hkeyed'.stdHash_of_hashPreimage E hblob).2

/-- A pushed bundle leaves its dry run. -/
theorem Rehearsal.of_pushed (hE : E.Lawful) (hfree : CollisionFree E blobs)
    (hserver : server.WellFormed E) (hs : Simulates E blobs server chain s)
    (hground : SpeculativeLedger.Grounded (parentName E blobs)
      (knownNames E blobs)) {tx : SpendBundle}
    (f : Farmed E server.chainView (server.spendBundles ++ [tx])
      dryRunCoinbasePuzzleHash dryRunFeesPuzzleHash server.now)
    (a : f.Accepted server.db)
    (hcovers : Farmed.Covers (E := E) blobs f.claims a.additions
      (f.stored server.db).hashPreimage)
    (hadmissible : SpeculativeLedger.Admissible (parentName E blobs) indexHash
      (knownNames E blobs) s (f.candidate a)) :
    Nonempty (Rehearsal E blobs
      { server with
        heap := server.heap.put server.storage (f.applied a)
        spendBundles := server.spendBundles ++ [tx] }) := by
  refine ⟨⟨server.now, server.db, f, a, le_rfl, hcovers, ?_, ?_⟩⟩
  · intro claim hclaim
    rw [LedgerAPI.db_put]
    exact Farmed.claim_stored hE hfree hserver.keyed a hcovers hclaim
  intro claim hclaim
  have hremoved : claim.coin.name E ∈ a.removals := by
    rw [f.removals_eq hE a]
    exact List.mem_map.mpr ⟨claim, hclaim, rfl⟩
  rw [LedgerAPI.db_put, f.applied_unspentForCoinName a, blockRecords,
    if_pos hremoved, if_pos hremoved]
  by_cases hname : claim.coin.name E ∈ a.additions.map (Coin.name E)
  · rw [if_pos hname]
    obtain ⟨coin, hadded, heq⟩ := List.mem_map.mp hname
    obtain rfl := hfree.name_inj hE (hcovers.added coin hadded)
      (hcovers.claimed claim hclaim) heq
    cases hrecord : server.db.unspentForCoinName (claim.coin.name E) with
    | none =>
        refine ⟨⟨server.chainView.tipIndex + 1, 0⟩, _, ?_, rfl, rfl,
          .inl hadded⟩
        rw [overlay_of_top_none hrecord, ramUnspentDB_get, if_pos hname]
    | some unspent =>
        refine ⟨unspent, _, overlay_of_top hrecord, rfl, ?_, .inl hadded⟩
        -- it was created by an earlier dry run for the same index
        have hconfirmed := hs.inv.confirmed_of_created hadmissible hground
          (claim.coin.name E) (f.candidate_created a ▸ hname) unspent.entry
          (by rw [hs.records, recordsOf, hrecord]; rfl)
        rw [hs.tip] at hconfirmed
        exact hconfirmed.symm
  · obtain ⟨cpc, hcpc, hcoin, -⟩ := (f.resolved_claims hE hfree a
      hcovers).exists_of_mem_left hclaim
    rcases a.spendable cpc hcpc with hadded | ⟨unspent, hrecord, hspendable⟩
    · exact absurd (List.mem_map_of_mem hadded) (hcoin ▸ hname)
    · rw [hcoin] at hrecord
      rw [if_neg hname, hrecord]
      refine ⟨unspent, _, overlay_of_top hrecord, rfl, rfl,
        .inr ⟨hspendable.1, ?_⟩⟩
      simp

end Rehearsal

/-! ## Accepting the bundles again -/

theorem Farmed.output_parent_known {E : Environment} (hE : E.Lawful)
    {blobs : List Bytes} {chainView : ChainView}
    {spendBundles : List SpendBundle}
    {coinbasePuzzleHash feesPuzzleHash : Bytes32} {now : ℕ}
    (f : Farmed E chainView spendBundles coinbasePuzzleHash feesPuzzleHash now)
    {db : Database} (a : f.Accepted db)
    (hclaims : ∀ claim ∈ f.claims, claim.coin.bytes E ∈ blobs) {coin : Coin}
    (hcoin : coin ∈ a.outputs) :
    coin.parentCoinInfo ∈ knownNames E blobs := by
  obtain ⟨npc, hnpc, condition, -, hcreated⟩ :=
    (mem_outputs_iff E a.outputs_eq).mp hcoin
  obtain ⟨_, _, _, -, -, rfl⟩ := (createdOutput_eq_ok_iff E).mp hcreated
  have hremoved : npc.coinName ∈ a.removals := List.mem_map_of_mem hnpc
  rw [f.removals_eq hE a] at hremoved
  obtain ⟨claim, hclaim, heq⟩ := List.mem_map.mp hremoved
  exact ⟨claim.coin, hclaims claim hclaim, heq⟩

theorem coinPointerObj_of_stored {E : Environment} (hE : E.Lawful)
    {blobs : List Bytes} (hfree : CollisionFree E blobs)
    {additions : List Coin} (hnodup : (additions.map (Coin.name E)).Nodup)
    (hadded : ∀ coin ∈ additions, coin.bytes E ∈ blobs) {db : Database}
    (hkeyed : db.Keyed E) (hstored : ∀ blob ∈ db.stored, blob ∈ blobs)
    {coin : Coin} (hcoin : coin.bytes E ∈ db.stored) :
    coinPointerObj E
        (overlay (ramStorageOf E additions).hashPreimage db.hashPreimage)
        (coin.name E) = .ok coin := by
  unfold coinPointerObj
  by_cases hname : coin.name E ∈ additions.map (Coin.name E)
  · obtain ⟨added, hmem, heq⟩ := List.mem_map.mp hname
    obtain rfl := hfree.name_inj hE (hadded added hmem) (hstored _ hcoin) heq
    rw [overlay_of_top (ramStorageOf_of_mem E hnodup hmem)]
    exact Coin.fromBytes_bytes E hE added
  · have hpreimage := hkeyed.hashPreimage_of_stored E (hfree.mono hstored)
      hcoin
    rw [overlay_of_top_none (ramStorageOf_of_notMem E hnodup hname),
      show coin.name E = E.stdHash (coin.bytes E) from rfl, hpreimage]
    exact Coin.fromBytes_bytes E hE coin

section Again

variable {E} {blobs : List Bytes} {server : LedgerAPI}
  {coinbasePuzzleHash feesPuzzleHash : Bytes32}
  (r : Rehearsal E blobs server)
  (f : Farmed E server.chainView server.spendBundles coinbasePuzzleHash
    feesPuzzleHash server.now)

def Rehearsal.additionsOf : List Coin :=
  f.body.coinbaseCoin :: f.body.feesCoin :: r.accepted.outputs

variable {r f}

theorem Rehearsal.additionsOf_known
    (hrewards : ∀ coin ∈ [f.body.coinbaseCoin, f.body.feesCoin],
      coin.bytes E ∈ blobs) :
    ∀ coin ∈ r.additionsOf f, coin.bytes E ∈ blobs := by
  intro coin hcoin
  rcases mem_additions_iff.mp hcoin with hreward | houtput
  · exact hrewards coin hreward
  · exact r.covers.added coin (mem_additions_iff.mpr (.inr houtput))

theorem Rehearsal.additionsOf_nodup (hE : E.Lawful)
    (hfree : CollisionFree E blobs)
    (hindex : indexHash (server.chainView.tipIndex + 1) ∉ knownNames E blobs)
    (hrewards : ∀ coin ∈ [f.body.coinbaseCoin, f.body.feesCoin],
      coin.bytes E ∈ blobs)
    (hdistinct : f.body.coinbaseCoin ≠ f.body.feesCoin) :
    ((r.additionsOf f).map (Coin.name E)).Nodup := by
  have hknown := r.additionsOf_known hrewards
  -- a reward's parent is the block index, an output's parent is a coin
  have hfresh : ∀ coin ∈ [f.body.coinbaseCoin, f.body.feesCoin],
      coin ∉ r.accepted.outputs := by
    intro coin hcoin houtput
    have hparent := r.farmed.output_parent_known hE r.accepted
      r.covers.claimed houtput
    rcases List.mem_pair.mp hcoin with rfl | rfl <;> exact hindex hparent
  have houtputs : r.accepted.outputs.Nodup := by
    have hnodup := List.Nodup.of_map _ r.accepted.additions_nodup
    exact (List.nodup_cons.mp (List.nodup_cons.mp hnodup).2).2
  have hnodup : (r.additionsOf f).Nodup := by
    refine List.nodup_cons.mpr ⟨?_, List.nodup_cons.mpr
      ⟨hfresh _ (List.mem_cons_of_mem _ List.mem_cons_self), houtputs⟩⟩
    rw [List.mem_cons, not_or]
    exact ⟨hdistinct, hfresh _ List.mem_cons_self⟩
  refine hnodup.map_on fun x hx y hy heq => ?_
  exact hfree.name_inj hE (hknown x hx) (hknown y hy) heq

/-- Every claimed name resolves to the same coin as in the dry run. -/
theorem Rehearsal.resolved_again (hE : E.Lawful)
    (hfree : CollisionFree E blobs) (hserver : server.WellFormed E)
    (hrewards : ∀ coin ∈ [f.body.coinbaseCoin, f.body.feesCoin],
      coin.bytes E ∈ blobs)
    (hnodup : ((r.additionsOf f).map (Coin.name E)).Nodup)
    (hstored : ∀ blob ∈ (f.stored server.db).stored, blob ∈ blobs) :
    r.accepted.npcList.mapM (resolveCoin E
      (overlay (ramStorageOf E (r.additionsOf f)).hashPreimage
        (f.stored server.db).hashPreimage)) = .ok r.accepted.cpcList := by
  have hrounds := (List.forall₂_and_left r.accepted.npcList
    r.accepted.cpcList).mpr ⟨fun _ hnpc => hnpc,
      Except.mapM_eq_ok_iff.mp r.accepted.resolved⟩
  refine Except.mapM_eq_ok_iff.mpr (hrounds.imp ?_)
  rintro npc cpc ⟨hnpc, hround⟩
  obtain ⟨coin, hcoin, hround⟩ := Except.bind_eq_ok_iff.mp hround
  have hremoved : npc.coinName ∈ r.accepted.removals :=
    List.mem_map_of_mem hnpc
  rw [r.farmed.removals_eq hE r.accepted] at hremoved
  obtain ⟨claim, hclaim, hname⟩ := List.mem_map.mp hremoved
  rw [← hname] at hcoin
  obtain rfl := r.covers.resolve hE hfree r.accepted.additions_nodup hclaim
    hcoin
  refine Except.bind_eq_ok_iff.mpr ⟨claim.coin, ?_, hround⟩
  rw [← hname]
  have hkeyed := (hserver.keyed.addPreimage E f.headerBlob).addPreimage E
    f.bodyBlob
  refine coinPointerObj_of_stored hE hfree hnodup
    (r.additionsOf_known hrewards) hkeyed hstored ?_
  exact (f.grows E server.db).stored (r.stored claim hclaim)

theorem Rehearsal.exists_claim (hE : E.Lawful) (hfree : CollisionFree E blobs)
    {cpc : Cpc} (hcpc : cpc ∈ r.accepted.cpcList) :
    ∃ claim ∈ server.claims, cpc.coin = claim.coin := by
  obtain ⟨claim, hclaim, hcoin, -⟩ := (r.farmed.resolved_claims hE hfree
    r.accepted r.covers).exists_of_mem_right hcpc
  exact ⟨claim, hclaim, hcoin⟩

theorem Rehearsal.context_later (hE : E.Lawful) (hfree : CollisionFree E blobs)
    (removals : List Bytes32) :
    ConditionContext.Later E (r.accepted.cpcList.map Cpc.coin)
      ⟨server.chainView.tipIndex + 1, removals,
        coinToUnspent E (overlay r.db.unspentForCoinName
          (ramUnspentDB E r.accepted.additions
            (server.chainView.tipIndex + 1)).get) r.accepted.cpcList, r.now⟩
      ⟨server.chainView.tipIndex + 1, removals,
        coinToUnspent E (overlay server.db.unspentForCoinName
          (ramUnspentDB E (r.additionsOf f)
            (server.chainView.tipIndex + 1)).get) r.accepted.cpcList,
        server.now⟩ where
  blockIndex := rfl
  removals := rfl
  creationTime := Int.ofNat_le.mpr r.now_le
  confirmed coin hcoin := by
    obtain ⟨cpc, hcpc, rfl⟩ := List.mem_map.mp hcoin
    obtain ⟨claim, hclaim, heq⟩ := r.exists_claim hE hfree hcpc
    obtain ⟨old, new, hold, hnew, hconfirmed, -⟩ := r.record claim hclaim
    rw [← heq] at hold hnew
    refine ⟨old, new, ?_, ?_, hconfirmed⟩
    · rw [coinToUnspent_get_of_mem E _ hcpc, hold]
    · rw [coinToUnspent_get_of_mem E _ hcpc, overlay_of_top hnew]

/-- The rehearsed bundles are accepted again, unless the new reward coins get
in the way. -/
theorem Rehearsal.accepted_again (hE : E.Lawful)
    (hfree : CollisionFree E blobs) (hserver : server.WellFormed E)
    (hindex : indexHash (server.chainView.tipIndex + 1) ∉ knownNames E blobs)
    (hbundle : f.bundle = r.farmed.bundle) (hfees : f.fees = r.farmed.fees)
    (hrewards : ∀ coin ∈ [f.body.coinbaseCoin, f.body.feesCoin],
      coin.bytes E ∈ blobs)
    (hdistinct : f.body.coinbaseCoin ≠ f.body.feesCoin)
    (hspent : ∀ claim ∈ server.claims,
      claim.coin ∈ [r.farmed.body.coinbaseCoin, r.farmed.body.feesCoin] →
        claim.coin ∈ [f.body.coinbaseCoin, f.body.feesCoin])
    (hstored : ∀ blob ∈ (f.stored server.db).stored, blob ∈ blobs) :
    ∃ a : f.Accepted server.db, a.outputs = r.accepted.outputs := by
  have hnodup := r.additionsOf_nodup hE hfree hindex hrewards hdistinct
  have hamounts : (r.additionsOf f).map Coin.amount =
      r.accepted.additions.map Coin.amount := by
    change blockReward :: f.fees :: _ = blockReward :: r.farmed.fees :: _
    rw [hfees]
  refine ⟨{
    npcList := r.accepted.npcList
    outputs := r.accepted.outputs
    cpcList := r.accepted.cpcList
    hashKeyPairs := r.accepted.hashKeyPairs
    npcList_eq := ?_
    outputs_eq := r.accepted.outputs_eq
    amounts := ?_
    additions_nodup := hnodup
    removals_nodup := r.accepted.removals_nodup
    resolved := r.resolved_again hE hfree hserver hrewards hnodup hstored
    puzzleHash := r.accepted.puzzleHash
    spendable := ?_
    fees := ?_
    solutions := checkSolutions_of_later (r.context_later hE hfree _)
      r.accepted.solutions
    signature := ?_ }, rfl⟩
  · rw [f.npcsOf_claims hE]
    exact (r.farmed.npcsOf_claims hE).symm.trans r.accepted.npcList_eq
  · intro coin hcoin
    have hmem : coin.amount ∈ r.accepted.additions.map Coin.amount := by
      rw [← hamounts]
      exact List.mem_map_of_mem hcoin
    obtain ⟨coin', hcoin', heq⟩ := List.mem_map.mp hmem
    rw [← heq]
    exact r.accepted.amounts coin' hcoin'
  · intro cpc hcpc
    obtain ⟨claim, hclaim, heq⟩ := r.exists_claim hE hfree hcpc
    obtain ⟨-, new, -, hnew, -, hadded | hspendable⟩ := r.record claim hclaim
    · refine .inl ?_
      rw [heq]
      rcases mem_additions_iff.mp hadded with hreward | houtput
      · exact mem_additions_iff.mpr (.inl (hspent claim hclaim hreward))
      · exact mem_additions_iff.mpr (.inr houtput)
    · refine .inr ⟨new, ?_, hspendable⟩
      rw [heq, hnew]
  · unfold blockFees
    change ((r.additionsOf f).map Coin.amount).sum - _ = blockReward
    rw [hamounts]
    exact r.accepted.fees
  · change f.bundle.aggregatedSignature.validate E _ = .ok true
    rw [hbundle]
    exact r.accepted.signature

end Again

/-! ## The next block -/

/-- `do_next_block` succeeds with a block of all pending spends. -/
def FarmsMempool (server : LedgerAPI)
    (coinbasePuzzleHash feesPuzzleHash : Bytes32) : Prop :=
  ∃ header body,
    ((LedgerAPI.doNextBlock E coinbasePuzzleHash feesPuzzleHash).run
        server).1 = .ok (.block header (some body)) ∧
      body.solutionProgram = .ofList
        [E.quoteKeyword, .ofList (server.claims.map (solutionEntry E))]

/-- The new reward coins differ, and they replace the rewards of the last dry
run that the pending bundles spend. -/
def MempoolFits (server : LedgerAPI)
    (coinbasePuzzleHash feesPuzzleHash : Bytes32) : Prop :=
  server.chainView.tipIndex + 1 < 256 ^ 32 ∧
    (rewardCoins E server.chainView.tipIndex server.claims coinbasePuzzleHash
      feesPuzzleHash).Nodup ∧
    ∀ claim ∈ server.claims,
      claim.coin ∈ rewardCoins E server.chainView.tipIndex server.claims
          dryRunCoinbasePuzzleHash dryRunFeesPuzzleHash →
        claim.coin ∈ rewardCoins E server.chainView.tipIndex server.claims
          coinbasePuzzleHash feesPuzzleHash

instance (server : LedgerAPI) (coinbasePuzzleHash feesPuzzleHash : Bytes32) :
    Decidable (MempoolFits E server coinbasePuzzleHash feesPuzzleHash) :=
  inferInstanceAs (Decidable (_ ∧ List.Nodup _ ∧
    ∀ claim ∈ server.claims, claim.coin ∈ rewardCoins E _ _ _ _ →
      claim.coin ∈ rewardCoins E _ _ _ _))

def nextBlockBlobs (requests : List Request)
    (coinbasePuzzleHash feesPuzzleHash : Bytes32) : List Bytes :=
  LedgerAPI.knownBlobs E
      (requests ++ [.nextBlock coinbasePuzzleHash feesPuzzleHash]) ++
    (rewardCoins E (LedgerAPI.run E requests).chainView.tipIndex
      (LedgerAPI.run E requests).claims coinbasePuzzleHash
      feesPuzzleHash).map (Coin.bytes E)

namespace LedgerAPI

variable {E}

/-- Answered or refused, the request stores the block that it has farmed. -/
theorem WellFormed.farmed_stored {server : LedgerAPI}
    (hserver : server.WellFormed E)
    {coinbasePuzzleHash feesPuzzleHash : Bytes32}
    (f : Farmed E server.chainView server.spendBundles coinbasePuzzleHash
      feesPuzzleHash server.now) :
    (f.stored server.db).stored ⊆
      (LedgerAPI.step E server
        (.nextBlock coinbasePuzzleHash feesPuzzleHash)).db.stored := by
  rw [step_nextBlock_db]
  unfold attempt
  rw [hserver.unspentDb]
  exact (newChainView_grows_of_farmed f hserver.cls).stored

/-- An acceptable block is farmed and contains the pending spends. -/
theorem farmsMempool_of_accepted (hE : E.Lawful) {server : LedgerAPI}
    (hserver : server.WellFormed E) {blobs : List Bytes}
    (hfree : CollisionFree E blobs) (hgenesis : NoIndexHash E blobs 0)
    (hclaims : ∀ claim ∈ server.claims, claim.coin.bytes E ∈ blobs)
    {coinbasePuzzleHash feesPuzzleHash : Bytes32}
    (f : Farmed E server.chainView server.spendBundles coinbasePuzzleHash
      feesPuzzleHash server.now) (a : f.Accepted server.db)
    (hstored : ∀ blob ∈ (f.applied a).stored, blob ∈ blobs) :
    FarmsMempool E server coinbasePuzzleHash feesPuzzleHash := by
  have hattempt : server.attempt E server.spendBundles coinbasePuzzleHash
      feesPuzzleHash =
        (.ok f.newView, server.heap.put server.storage (f.applied a)) := by
    unfold attempt
    rw [hserver.unspentDb]
    exact newChainView_of_accepted hE ⟨hserver.viewDb, hserver.genesisHash,
      hserver.cls, hserver.keyed, hfree, hgenesis⟩ f a hclaims hstored
  refine ⟨f.header, f.body, ?_, ?_⟩
  · rw [doNextBlock_run, hattempt]
    rfl
  · change bestSolutionProgram E f.bundle = _
    rw [bestSolutionProgram, f.coinSolutions_eq]
    rfl

theorem exists_rehearsal (hE : E.Lawful) {blobs : List Bytes}
    (requests : List Request)
    (hhash : HashAssumptions E blobs (run E requests).chainView.tipIndex)
    (hknown : knownBlobs E requests ⊆ blobs) :
    ∃ s, Simulates E blobs (run E requests) (blocks E requests) s ∧
      ((run E requests).spendBundles ≠ [] →
        Nonempty (Rehearsal E blobs (run E requests))) := by
  refine run_induction hE hhash (fun requests _ =>
    (run E requests).spendBundles ≠ [] →
      Nonempty (Rehearsal E blobs (run E requests))) ?_ ?_ requests hknown
    le_rfl
  · exact fun hne => absurd rfl hne
  intro requests request server' response s s' hs hP hserver _ hstep
  rw [hserver]
  cases hstep with
  | refused e added =>
      intro hne
      obtain ⟨r⟩ := hP hne
      refine ⟨r.later _ _ le_rfl ?_ ?_⟩
      · rw [Heap.put_self, Database.addPreimages_unspentForCoinName]
      · rw [Heap.put_self, Database.addPreimages_stored]
        exact List.subset_append_right _ _
  | skipped ms =>
      intro hne
      obtain ⟨r⟩ := hP hne
      exact ⟨r.later _ _ (Nat.le_add_right _ _) rfl (List.Subset.refl _)⟩
  | pushed f a hcovers hadmissible =>
      intro _
      exact Rehearsal.of_pushed hE hhash.collisionFree
        (run_wellFormed requests) hs (hhash.grounded hE) f a hcovers
        hadmissible
  | mined f a => exact fun hne => absurd rfl hne

section NextBlock

variable {blobs : List Bytes} {requests : List Request}
  {coinbasePuzzleHash feesPuzzleHash : Bytes32}

/-- A block that has been mined had room for the mempool. -/
theorem mempoolFits_of_mined (hE : E.Lawful)
    (hhash : HashAssumptions E blobs (run E requests).chainView.tipIndex)
    {s : State Bytes32}
    (hs : Simulates E blobs (run E requests) (blocks E requests) s)
    (hclaims : ∀ claim ∈ (run E requests).claims, claim.coin.bytes E ∈ blobs)
    (f : Farmed E (run E requests).chainView (run E requests).spendBundles
      coinbasePuzzleHash feesPuzzleHash (run E requests).now)
    (a : f.Accepted (run E requests).db)
    (hcovers : Farmed.Covers (E := E) blobs f.claims a.additions
      (f.stored (run E requests).db).hashPreimage) :
    MempoolFits E (run E requests) coinbasePuzzleHash feesPuzzleHash := by
  have hfree := hhash.collisionFree
  have hrewards := f.rewardCoins_eq
  have hindex := hhash.indexHash_notMem le_rfl
  refine ⟨f.index_lt, ?_, ?_⟩
  · have hnodup := List.Nodup.of_map _ a.additions_nodup
    change (rewardCoins E _ f.claims _ _).Nodup
    rw [hrewards]
    exact hnodup.sublist
      ((List.nil_sublist a.outputs).cons_cons _ |>.cons_cons _)
  intro claim hclaim hdry
  change claim.coin ∈ rewardCoins E _ f.claims _ _
  rw [hrewards]
  have hparent : claim.coin.parentCoinInfo =
      indexHash ((run E requests).chainView.tipIndex + 1) := by
    unfold rewardCoins at hdry
    split at hdry
    · rcases List.mem_pair.mp hdry with h | h <;> rw [h] <;> rfl
    · simp at hdry
  obtain ⟨cpc, hcpc, hcoin, -⟩ :=
    (f.resolved_claims hE hfree a hcovers).exists_of_mem_left hclaim
  rcases a.spendable cpc hcpc with hadded | ⟨unspent, hrecord, hspendable⟩
  · rw [hcoin] at hadded
    rcases mem_additions_iff.mp hadded with hreward | houtput
    · exact hreward
    -- an output's parent is a coin
    · have hknown := f.output_parent_known hE a hclaims houtput
      rw [hparent] at hknown
      exact absurd hknown hindex
  -- a record of a reward coin for the next index is not confirmed yet
  · rw [hcoin] at hrecord
    have hentry : s.records (claim.coin.name E) = some unspent.entry := by
      rw [hs.records, recordsOf, hrecord]
      rfl
    have hroot := hs.inv.origin _ _ hentry
    rw [parentName_name hE hfree (hclaims claim hclaim), hparent] at hroot
    rcases hroot with hroot | ⟨p, hp, -⟩
    · have hconfirmed : unspent.entry.confirmed <
          (run E requests).chainView.tipIndex + 1 :=
        Nat.lt_succ_of_le hspendable.1.2
      have heq := indexHash_inj f.index_lt (hconfirmed.trans f.index_lt) hroot
      exact absurd hconfirmed heq.not_gt
    · exact absurd (hs.inv.mem_known _ p hp) hindex

theorem knownBlobs_subset_nextBlockBlobs :
    knownBlobs E (requests ++ [.nextBlock coinbasePuzzleHash feesPuzzleHash]) ⊆
      nextBlockBlobs E requests coinbasePuzzleHash feesPuzzleHash :=
  List.subset_append_left _ _

theorem stored_subset_nextBlockBlobs
    (f : Farmed E (run E requests).chainView (run E requests).spendBundles
      coinbasePuzzleHash feesPuzzleHash (run E requests).now) :
    (f.stored (run E requests).db).stored ⊆
      nextBlockBlobs E requests coinbasePuzzleHash feesPuzzleHash := by
  intro blob hblob
  apply knownBlobs_subset_nextBlockBlobs
  apply List.mem_append_left
  rw [run_append]
  exact (run_wellFormed requests).farmed_stored f hblob

theorem reward_mem_nextBlockBlobs
    (f : Farmed E (run E requests).chainView (run E requests).spendBundles
      coinbasePuzzleHash feesPuzzleHash (run E requests).now) {coin : Coin}
    (hcoin : coin ∈ [f.body.coinbaseCoin, f.body.feesCoin]) :
    coin.bytes E ∈
      nextBlockBlobs E requests coinbasePuzzleHash feesPuzzleHash := by
  apply List.mem_append_right
  apply List.mem_map_of_mem
  exact f.rewardCoins_eq.symm ▸ hcoin

/-- The mempool is farmed again when the reward coins fit. -/
theorem exists_accepted_of_fits (hE : E.Lawful)
    (hhash : HashAssumptions E
      (nextBlockBlobs E requests coinbasePuzzleHash feesPuzzleHash)
      (run E requests).chainView.tipIndex)
    {timestamp : ℕ} (hclock : clockSeconds (run E requests).now = .ok timestamp)
    (hfits : timestamp < 2 ^ 64)
    (hmempool : MempoolFits E (run E requests) coinbasePuzzleHash
      feesPuzzleHash) :
    ∃ (f : Farmed E (run E requests).chainView (run E requests).spendBundles
        coinbasePuzzleHash feesPuzzleHash (run E requests).now)
      (a : f.Accepted (run E requests).db), ∀ coin ∈ a.outputs, coin.bytes E ∈
        nextBlockBlobs E requests coinbasePuzzleHash feesPuzzleHash := by
  obtain ⟨hindex, hdistinct, hspent⟩ := hmempool
  have hfree := hhash.collisionFree
  have hcoins : ∀ f : Farmed E (run E requests).chainView
      (run E requests).spendBundles coinbasePuzzleHash feesPuzzleHash
      (run E requests).now, f.body.coinbaseCoin ≠ f.body.feesCoin := by
    intro f
    change (rewardCoins E _ f.claims _ _).Nodup at hdistinct
    rw [f.rewardCoins_eq] at hdistinct
    simpa using hdistinct
  by_cases hempty : (run E requests).spendBundles = []
  · obtain ⟨f⟩ := exists_farmed_nil hE hempty hindex coinbasePuzzleHash
      feesPuzzleHash hclock hfits
    have hnames : f.body.coinbaseCoin.name E ≠ f.body.feesCoin.name E :=
      fun heq => hcoins f (hfree.name_inj hE
        (reward_mem_nextBlockBlobs f List.mem_cons_self)
        (reward_mem_nextBlockBlobs f
          (List.mem_cons_of_mem _ List.mem_cons_self)) heq)
    obtain ⟨a, hnone⟩ := exists_accepted_nil hE hempty f _ hnames
    exact ⟨f, a, by simp [hnone]⟩
  · obtain ⟨-, -, hrehearsal⟩ := exists_rehearsal hE requests hhash
      (fun blob hblob => knownBlobs_subset_nextBlockBlobs
        (knownBlobs_append requests _ hblob))
    obtain ⟨r⟩ := hrehearsal hempty
    obtain ⟨f, hbundle, hfees⟩ := r.farmed.exists_again coinbasePuzzleHash
      feesPuzzleHash hclock hfits
    have hspent' : ∀ claim ∈ (run E requests).claims,
        claim.coin ∈ [r.farmed.body.coinbaseCoin, r.farmed.body.feesCoin] →
          claim.coin ∈ [f.body.coinbaseCoin, f.body.feesCoin] := by
      intro claim hclaim hdry
      have hkept := hspent claim hclaim (r.farmed.rewardCoins_eq.symm ▸ hdry)
      exact f.rewardCoins_eq ▸ hkept
    obtain ⟨a, houtputs⟩ := r.accepted_again hE hfree (run_wellFormed requests)
      (hhash.indexHash_notMem le_rfl) hbundle hfees
      (fun _ => reward_mem_nextBlockBlobs f) (hcoins f) hspent'
      (stored_subset_nextBlockBlobs f)
    refine ⟨f, a, fun coin hcoin => ?_⟩
    rw [houtputs] at hcoin
    exact r.covers.added coin (mem_additions_iff.mpr (.inr hcoin))

/-- After any run, with a clock that fits in a header, the next block farms the
mempool exactly when the reward coins fit. -/
theorem nextBlock_farms_mempool_iff (hE : E.Lawful) (requests : List Request)
    (coinbasePuzzleHash feesPuzzleHash : Bytes32)
    (hhash : HashAssumptions E
      (nextBlockBlobs E requests coinbasePuzzleHash feesPuzzleHash)
      (run E requests).chainView.tipIndex)
    (timestamp : ℕ)
    (hclock : clockSeconds (run E requests).now = .ok timestamp)
    (hfits : timestamp < 2 ^ 64) :
    FarmsMempool E (run E requests) coinbasePuzzleHash feesPuzzleHash ↔
      MempoolFits E (run E requests) coinbasePuzzleHash feesPuzzleHash := by
  have hknown : knownBlobs E requests ⊆
      nextBlockBlobs E requests coinbasePuzzleHash feesPuzzleHash :=
    fun blob hblob => knownBlobs_subset_nextBlockBlobs
      (knownBlobs_append requests _ hblob)
  have hclaims : ∀ claim ∈ (run E requests).claims, claim.coin.bytes E ∈
      nextBlockBlobs E requests coinbasePuzzleHash feesPuzzleHash :=
    fun claim hclaim => hknown (pending_known hclaim)
  constructor
  · rintro ⟨header, body, hresponse, -⟩
    have hresponse' : ((handle E (.nextBlock coinbasePuzzleHash
        feesPuzzleHash)).run (run E requests)).1 =
          .ok (.block header (some body)) := hresponse
    obtain ⟨s, hs, -⟩ := exists_rehearsal hE requests hhash hknown
    obtain ⟨s', hstep⟩ := exists_speculativeStep hE hhash requests
      (.nextBlock coinbasePuzzleHash feesPuzzleHash)
      knownBlobs_subset_nextBlockBlobs le_rfl hs
    rw [hresponse'] at hstep
    generalize run E (requests ++ [.nextBlock coinbasePuzzleHash
      feesPuzzleHash]) = server' at hstep
    cases hstep with
    | mined f a hcovers _ =>
        exact mempoolFits_of_mined hE hhash hs hclaims f a hcovers
  · intro hmempool
    obtain ⟨f, a, houtputs⟩ := exists_accepted_of_fits hE hhash hclock hfits
      hmempool
    apply farmsMempool_of_accepted hE (run_wellFormed requests)
      hhash.collisionFree
      (hhash.noIndexHash.mono (List.Subset.refl _) (Nat.zero_le _)) hclaims f a
    intro blob hblob
    rcases (f.mem_applied_stored a).mp hblob with hadded | hold
    · obtain ⟨coin, hcoin, rfl⟩ := List.mem_map.mp hadded
      rcases mem_additions_iff.mp hcoin with hreward | houtput
      · exact reward_mem_nextBlockBlobs f hreward
      · exact houtputs coin houtput
    · exact stored_subset_nextBlockBlobs f
        (by simpa [Farmed.stored] using hold)

end NextBlock

end LedgerAPI

namespace Reference

open LedgerAPI in
theorem pendingSpend_clock :
    clockSeconds (run environment pendingSpend).now = .ok 0 :=
  Except.toOption_eq_some_iff.mp (by decide +kernel)

end Reference

open Reference LedgerAPI in
theorem LedgerAPI.nextBlock_farms_mempool_iff_pendingSpend :
    FarmsMempool environment (run environment pendingSpend)
      (SizedBytes.fill 32 3) (SizedBytes.fill 32 4) := by
  obtain ⟨hchecks, hmempool⟩ : HashChecks environment
        (nextBlockBlobs environment pendingSpend (SizedBytes.fill 32 3)
          (SizedBytes.fill 32 4))
        (run environment pendingSpend).chainView.tipIndex ∧
      MempoolFits environment (run environment pendingSpend)
        (SizedBytes.fill 32 3) (SizedBytes.fill 32 4) := by
    decide +kernel
  exact (nextBlock_farms_mempool_iff environment_lawful pendingSpend _ _
    hchecks.assumptions 0 pendingSpend_clock (by decide)).mpr hmempool

open Reference LedgerAPI in
/-- The fees are worth a reward, and both reward coins go to one puzzle. -/
theorem LedgerAPI.nextBlock_does_not_farm_mempool :
    ¬ ∀ (requests : List Request)
        (coinbasePuzzleHash feesPuzzleHash : Bytes32) (timestamp : ℕ),
      HashAssumptions environment
        (nextBlockBlobs environment requests coinbasePuzzleHash
          feesPuzzleHash)
        (run environment requests).chainView.tipIndex →
      clockSeconds (run environment requests).now = .ok timestamp →
      timestamp < 2 ^ 64 →
      FarmsMempool environment (run environment requests) coinbasePuzzleHash
        feesPuzzleHash := by
  intro hfarms
  obtain ⟨hchecks, hrefused⟩ : HashChecks environment
        (nextBlockBlobs environment pendingSpend (SizedBytes.fill 32 3)
          (SizedBytes.fill 32 3))
        (run environment pendingSpend).chainView.tipIndex ∧
      ((doNextBlock environment (SizedBytes.fill 32 3)
        (SizedBytes.fill 32 3)).run
          (run environment pendingSpend)).1.toOption.isNone = true := by
    decide +kernel
  obtain ⟨header, body, hrun, -⟩ := hfarms pendingSpend (SizedBytes.fill 32 3)
    (SizedBytes.fill 32 3) 0 hchecks.assumptions pendingSpend_clock (by decide)
  obtain ⟨e, hraised⟩ := Except.toOption_isNone_iff.mp hrefused
  rw [hraised] at hrun
  simp at hrun

end LedgerSim
