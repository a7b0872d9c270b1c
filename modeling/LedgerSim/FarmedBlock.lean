import LedgerSim.AcceptedValues
import LedgerSim.Augmentation
import LedgerSim.BlockSpends
import LedgerSim.HashAssumptions
import LedgerSim.LedgerApi

/-!
# Blocks that the server farms

The server farms every block from spend bundles, whose coins the clients
claim.  The removals of such a block are the names of the claimed coins, and
what validation resolves them to are the claimed coins themselves.  After
validation nothing can go wrong: every removed name has a record, and the
server signs its own header.
-/

namespace LedgerSim

variable (E : Environment)

/-! ## Farming -/

/-- `pos` in `new_chain_view`. -/
def serverProofOfSpace : ProofOfSpace :=
  ⟨E.poolPublicKey, plotPublicKey E⟩

def rewardCoin (blockIndex : ℕ) (puzzleHash : Bytes32) (amount : ℤ) : Coin :=
  ⟨indexHash blockIndex, puzzleHash, amount⟩

def farmedBody (blockIndex : ℕ) (bundle : SpendBundle) (fees : ℤ)
    (coinbasePuzzleHash feesPuzzleHash : Bytes32) : Body :=
  let coinbaseCoin := rewardCoin blockIndex coinbasePuzzleHash blockReward
  ⟨signCoinbaseCoin E coinbaseCoin, coinbaseCoin,
    rewardCoin blockIndex feesPuzzleHash fees, bestSolutionProgram E bundle, 0,
    bundle.aggregatedSignature⟩

def farmedHeader (chainView : ChainView) (timestamp : ℕ) (body : Body)
    (bodyBlob : Bytes) : Header :=
  ⟨chainView.tipHash, chainView.tipSignature, timestamp,
    ⟨E.stdHash (serverProofOfSpace E).bytes, some (serverProofOfSpace E)⟩,
    ⟨E.stdHash bodyBlob, some body⟩, E.stdHash []⟩

/-- The intermediate values of a block that can be farmed. -/
structure Farmed (chainView : ChainView) (spendBundles : List SpendBundle)
    (coinbasePuzzleHash feesPuzzleHash : Bytes32) (now : ℕ) where
  timestamp : ℕ
  bundle : SpendBundle
  fees : ℤ
  bodyBlob : Bytes
  headerBlob : Bytes
  timestamp_eq : clockSeconds now = .ok timestamp
  index_lt : chainView.tipIndex + 1 < 256 ^ 32
  bundle_eq : SpendBundle.aggregate E spendBundles = .ok bundle
  signed : validateSpendBundleSignature E bundle = .ok true
  fees_eq : bundle.fees E = .ok fees
  body_bytes : (farmedBody E (chainView.tipIndex + 1) bundle fees
    coinbasePuzzleHash feesPuzzleHash).bytes E = .ok bodyBlob
  header_bytes : (farmedHeader E chainView timestamp
    (farmedBody E (chainView.tipIndex + 1) bundle fees coinbasePuzzleHash
      feesPuzzleHash) bodyBlob).bytes = .ok headerBlob

namespace Farmed

variable {E} {chainView : ChainView} {spendBundles : List SpendBundle}
  {coinbasePuzzleHash feesPuzzleHash : Bytes32} {now : ℕ}

def body (f : Farmed E chainView spendBundles coinbasePuzzleHash feesPuzzleHash
    now) : Body :=
  farmedBody E (chainView.tipIndex + 1) f.bundle f.fees coinbasePuzzleHash
    feesPuzzleHash

def header (f : Farmed E chainView spendBundles coinbasePuzzleHash
    feesPuzzleHash now) : Header :=
  farmedHeader E chainView f.timestamp f.body f.bodyBlob

def signature (f : Farmed E chainView spendBundles coinbasePuzzleHash
    feesPuzzleHash now) : EORSignature :=
  EORSignature.sign (plotPublicKey E) (E.hash256 f.headerBlob)

def stored (f : Farmed E chainView spendBundles coinbasePuzzleHash
    feesPuzzleHash now) (db : Database) : Database :=
  (db.addPreimage E f.headerBlob).addPreimage E f.bodyBlob

def claims (_f : Farmed E chainView spendBundles coinbasePuzzleHash
    feesPuzzleHash now) : List CoinSolution :=
  spendBundles.flatMap SpendBundle.coinSolutions

theorem coinSolutions_eq (f : Farmed E chainView spendBundles
    coinbasePuzzleHash feesPuzzleHash now) :
    f.bundle.coinSolutions = f.claims := by
  obtain ⟨signature, -, h⟩ := Except.bind_eq_ok_iff.mp f.bundle_eq
  rw [← Except.ok.inj h]
  rfl

end Farmed

def claimedFees (claims : List CoinSolution) : Except Exn ℤ :=
  SpendBundle.fees E ⟨claims, ⟨zero96⟩⟩

/-- The reward coins of a block that is farmed from the claims, the coinbase
coin first. -/
def rewardCoins (tipIndex : ℕ) (claims : List CoinSolution)
    (coinbasePuzzleHash feesPuzzleHash : Bytes32) : List Coin :=
  match claimedFees E claims with
  | .ok fees =>
      [rewardCoin (tipIndex + 1) coinbasePuzzleHash blockReward,
        rewardCoin (tipIndex + 1) feesPuzzleHash fees]
  | .error _ => []

section Rewards

variable {E} {chainView : ChainView} {spendBundles : List SpendBundle}
  {coinbasePuzzleHash feesPuzzleHash : Bytes32} {now : ℕ}

theorem Farmed.claimedFees_eq (f : Farmed E chainView spendBundles
    coinbasePuzzleHash feesPuzzleHash now) :
    claimedFees E f.claims = .ok f.fees := by
  have hfees := f.fees_eq
  unfold SpendBundle.fees SpendBundle.additions SpendBundle.removals at hfees
  rwa [f.coinSolutions_eq] at hfees

theorem Farmed.rewardCoins_eq (f : Farmed E chainView spendBundles
    coinbasePuzzleHash feesPuzzleHash now) :
    rewardCoins E chainView.tipIndex f.claims coinbasePuzzleHash
        feesPuzzleHash = [f.body.coinbaseCoin, f.body.feesCoin] := by
  rw [rewardCoins, f.claimedFees_eq]
  rfl

end Rewards

theorem farmForChainView_eq_ok_iff {chainView : ChainView}
    {spendBundles : List SpendBundle}
    {coinbasePuzzleHash feesPuzzleHash : Bytes32} {now : ℕ} {header : Header}
    {body : Body} {signature : EORSignature} :
    farmForChainView E chainView spendBundles coinbasePuzzleHash feesPuzzleHash
        now = .ok (header, body, signature) ↔
      ∃ f : Farmed E chainView spendBundles coinbasePuzzleHash feesPuzzleHash
          now,
        f.header = header ∧ f.body = body ∧ f.signature = signature := by
  unfold farmForChainView createCoinbaseCoinAndSignature createCoinbaseCoin
    farmNewBlock signHeader HashPointer.ofObject
  constructor
  · intro h
    obtain ⟨timestamp, htimestamp, h⟩ := Except.bind_eq_ok_iff.mp h
    obtain ⟨coinbase, hcoinbase, h⟩ := Except.bind_eq_ok_iff.mp h
    obtain ⟨coin, hcoin, hcoinbase⟩ := Except.bind_eq_ok_iff.mp hcoinbase
    obtain ⟨indexBytes, hindex, hcoin⟩ := Except.bind_eq_ok_iff.mp hcoin
    obtain rfl := Except.ok.inj hcoin
    obtain rfl := Except.ok.inj hcoinbase
    obtain ⟨hlt, rfl⟩ := toBytes32_eq_ok_iff.mp hindex
    obtain ⟨bundle, hbundle, h⟩ := Except.bind_eq_ok_iff.mp h
    obtain ⟨farmed, hfarmed, h⟩ := Except.bind_eq_ok_iff.mp h
    obtain ⟨valid, hvalid, hfarmed⟩ := Except.bind_eq_ok_iff.mp hfarmed
    obtain ⟨_, hraise, hfarmed⟩ := Except.bind_eq_ok_iff.mp hfarmed
    obtain ⟨indexBytes', hindex', hfarmed⟩ := Except.bind_eq_ok_iff.mp hfarmed
    obtain ⟨-, rfl⟩ := toBytes32_eq_ok_iff.mp hindex'
    obtain ⟨fees, hfees, hfarmed⟩ := Except.bind_eq_ok_iff.mp hfarmed
    obtain ⟨bodyHash, hbodyHash, hfarmed⟩ := Except.bind_eq_ok_iff.mp hfarmed
    obtain ⟨bodyBlob, hbodyBlob, hbodyHash⟩ :=
      Except.bind_eq_ok_iff.mp hbodyHash
    obtain rfl := Except.ok.inj hbodyHash
    obtain rfl := Except.ok.inj hfarmed
    obtain ⟨signature, hsignature, h⟩ := Except.bind_eq_ok_iff.mp h
    obtain ⟨headerBlob, hheaderBlob, hsignature⟩ :=
      Except.bind_eq_ok_iff.mp hsignature
    obtain rfl := Except.ok.inj hsignature
    have hsigned : valid = true := by
      simpa using Except.raiseIf_eq_ok_iff.mp hraise
    rw [hsigned] at hvalid
    simp only [Except.ok.injEq, Prod.mk.injEq] at h
    obtain ⟨rfl, rfl, rfl⟩ := h
    exact ⟨⟨timestamp, bundle, fees, bodyBlob, headerBlob, htimestamp, hlt,
      hbundle, hvalid, hfees, hbodyBlob, hheaderBlob⟩, rfl, rfl, rfl⟩
  · rintro ⟨f, rfl, rfl, rfl⟩
    have hindex := toBytes32_eq_ok_iff.mpr ⟨f.index_lt, rfl⟩
    apply Except.bind_eq_ok f.timestamp_eq
    refine Except.bind_eq_ok
      (Except.bind_eq_ok (Except.bind_eq_ok hindex rfl) rfl) ?_
    apply Except.bind_eq_ok f.bundle_eq
    refine Except.bind_eq_ok_iff.mpr ⟨(f.header, f.body), ?_, ?_⟩
    · apply Except.bind_eq_ok f.signed
      apply Except.bind_eq_ok (Except.raiseIf_eq_ok_iff.mpr (by simp))
      apply Except.bind_eq_ok hindex
      apply Except.bind_eq_ok f.fees_eq
      exact Except.bind_eq_ok (Except.bind_eq_ok f.body_bytes rfl) rfl
    · exact Except.bind_eq_ok (Except.bind_eq_ok f.header_bytes rfl) rfl

/-! ## Spends -/

/-- The solutions that the farmer quotes are the entries that validation
reads. -/
theorem namePuzzleConditionsList_bestSolutionProgram (hE : E.Lawful)
    (bundle : SpendBundle) :
    namePuzzleConditionsList E (bestSolutionProgram E bundle) =
      (bundle.coinSolutions.map (solutionEntry E)).mapM (npcEntry E) := by
  unfold namePuzzleConditionsList bestSolutionProgram Environment.run
  rw [hE.run_quote]
  simp only [Except.mapError, Environment.exceptEvalError, Except.ok_bind]
  rw [SExp.forIter_ofList]

theorem npcEntry_solutionEntry (hE : E.Lawful) {claim : CoinSolution}
    {npc : Npc} (h : npcEntry E (solutionEntry E claim) = .ok npc) :
    npc.coinName = claim.coin.name E ∧
      (∃ puzzle, claim.solution.first = .ok puzzle ∧
        npc.puzzleHash = E.treeHash puzzle) ∧
      conditionsDictForSolution E claim.solution = .ok npc.conditionsDict := by
  obtain ⟨⟨left, right, htwo⟩, solution, puzzle, hsolution, hpuzzle, hhash,
    hdict⟩ := (npcEntry_eq_ok_iff E).mp h
  unfold solutionEntry at htwo hsolution
  obtain rfl : claim.solution = solution := Except.ok.inj hsolution
  rw [hE.asPython_two] at htwo
  simp only [PyVal.two, Option.some.injEq, Prod.mk.injEq, PyVal.bytes.injEq]
    at htwo
  exact ⟨Subtype.ext htwo.1.symm,
    ⟨puzzle, hpuzzle, (Environment.programHash_eq_ok_iff.mp hhash).2⟩, hdict⟩

def npcsOf (claims : List CoinSolution) : Except Exn (List Npc) :=
  claims.mapM fun claim => npcEntry E (solutionEntry E claim)

theorem npcsOf_coinName (hE : E.Lawful) {claims : List CoinSolution}
    {npcList : List Npc} (h : npcsOf E claims = .ok npcList) :
    npcList.map Npc.coinName =
      claims.map fun claim => claim.coin.name E := by
  have hnames : List.Forall₂
      (fun claim npc => claim.coin.name E = Npc.coinName npc) claims npcList :=
    (Except.mapM_eq_ok_iff.mp h).imp fun claim npc hnpc =>
      (npcEntry_solutionEntry E hE hnpc).1.symm
  exact hnames.map_eq_map.symm

namespace Farmed

variable {E} {chainView : ChainView} {spendBundles : List SpendBundle}
  {coinbasePuzzleHash feesPuzzleHash : Bytes32} {now : ℕ}
  {hashPreimage : Bytes32 → Option Bytes}
  {unspentFor : Bytes32 → Option Unspent} {reward timestamp : ℤ}

theorem npcsOf_claims (hE : E.Lawful) (f : Farmed E chainView spendBundles
    coinbasePuzzleHash feesPuzzleHash now) :
    namePuzzleConditionsList E f.body.solutionProgram =
      npcsOf E f.claims := by
  change namePuzzleConditionsList E (bestSolutionProgram E f.bundle) = _
  rw [namePuzzleConditionsList_bestSolutionProgram E hE, f.coinSolutions_eq,
    npcsOf, List.mapM_map]
  rfl

/-- The blobs that the resolution of a farmed block's spends looks at. -/
structure Covers (blobs : List Bytes) (claims : List CoinSolution)
    (additions : List Coin) (hashPreimage : Bytes32 → Option Bytes) :
    Prop where
  claimed : ∀ claim ∈ claims, claim.coin.bytes E ∈ blobs
  added : ∀ coin ∈ additions, coin.bytes E ∈ blobs
  stored : ∀ hash blob, hashPreimage hash = some blob →
    blob ∈ blobs ∧ E.stdHash blob = hash

theorem Covers.resolve (hE : E.Lawful) {blobs : List Bytes}
    {claims : List CoinSolution} {additions : List Coin}
    (hcovers : Covers (E := E) blobs claims additions hashPreimage)
    (hfree : CollisionFree E blobs)
    (hnodup : (additions.map (Coin.name E)).Nodup) {claim : CoinSolution}
    (hclaim : claim ∈ claims) {coin : Coin}
    (h : coinPointerObj E
      (overlay (ramStorageOf E additions).hashPreimage hashPreimage)
      (claim.coin.name E) = .ok coin) : coin = claim.coin := by
  have hclaimed := hcovers.claimed claim hclaim
  rcases coinPointerObj_overlay E hE hnodup h with
    ⟨hadded, hname⟩ | ⟨-, blob, hblob, hread⟩
  · exact hfree.name_inj hE (hcovers.added coin hadded) hclaimed hname
  · obtain ⟨hmem, hhash⟩ := hcovers.stored _ blob hblob
    obtain rfl : blob = claim.coin.bytes E := hfree _ hmem _ hclaimed hhash
    rw [Coin.fromBytes_bytes E hE] at hread
    exact (Except.ok.inj hread).symm

variable {f : Farmed E chainView spendBundles coinbasePuzzleHash feesPuzzleHash
  now} {tipIndex : ℕ}

theorem removals_eq (hE : E.Lawful) (a : AcceptedBody E tipIndex f.body
    hashPreimage unspentFor reward timestamp) :
    a.removals = f.claims.map fun claim => claim.coin.name E :=
  npcsOf_coinName E hE ((f.npcsOf_claims hE).symm.trans a.npcList_eq)

/-- Validation counts the coins that the bundles claim, against the puzzles
that the solutions reveal. -/
theorem resolved_claims (hE : E.Lawful) {blobs : List Bytes}
    (hfree : CollisionFree E blobs) (a : AcceptedBody E tipIndex f.body
      hashPreimage unspentFor reward timestamp)
    (hcovers : Covers (E := E) blobs f.claims a.additions hashPreimage) :
    List.Forall₂ (fun claim cpc => cpc.coin = claim.coin ∧
      ∃ puzzle, claim.solution.first = .ok puzzle ∧
        cpc.puzzleHash = E.treeHash puzzle) f.claims a.cpcList := by
  have hnpcs := Except.mapM_eq_ok_iff.mp
    ((f.npcsOf_claims hE).symm.trans a.npcList_eq)
  have hcpcs := hnpcs.comp (Except.mapM_eq_ok_iff.mp a.resolved)
  have hmembers := (List.forall₂_and_left f.claims a.cpcList).mpr
    ⟨fun _ hclaim => hclaim, hcpcs⟩
  refine hmembers.imp ?_
  rintro claim cpc ⟨hclaim, npc, hnpc, hcpc⟩
  obtain ⟨hname, hpuzzle, -⟩ := npcEntry_solutionEntry E hE hnpc
  obtain ⟨coin, hcoin, h⟩ := Except.bind_eq_ok_iff.mp hcpc
  obtain rfl := Except.ok.inj h
  rw [hname] at hcoin
  exact ⟨hcovers.resolve hE hfree a.additions_nodup hclaim hcoin, hpuzzle⟩

theorem removals_recorded (hE : E.Lawful) {blobs : List Bytes}
    (hfree : CollisionFree E blobs) (a : AcceptedBody E tipIndex f.body
      hashPreimage unspentFor reward timestamp)
    (hcovers : Covers (E := E) blobs f.claims a.additions hashPreimage) :
    a.removals.all (recorded E a.additions unspentFor) = true := by
  rw [List.all_eq_true]
  intro name hname
  rw [removals_eq hE a] at hname
  obtain ⟨claim, hclaim, rfl⟩ := List.mem_map.mp hname
  obtain ⟨cpc, hcpc, hcoin, -⟩ :=
    (resolved_claims hE hfree a hcovers).exists_of_mem_left hclaim
  rw [← hcoin]
  unfold recorded
  rcases a.spendable cpc hcpc with hadded | ⟨unspent, hrecord, -⟩
  · have hname : cpc.coin.name E ∈ a.additions.map (Coin.name E) :=
      List.mem_map_of_mem hadded
    simp only [hname, decide_true, Bool.true_or]
  · simp only [hrecord, Option.isSome_some, Bool.or_true]

/-! ## Applying a farmed block -/

/-- The server's own header and signature pass the check of the new tip. -/
theorem extend_eq_ok (hE : E.Lawful) (f : Farmed E chainView spendBundles
    coinbasePuzzleHash feesPuzzleHash now) (newUnspentDb : Ref)
    (hgenesis : E.stdHash f.headerBlob ≠ chainView.genesisHash.hash) :
    chainView.extend E f.header f.signature newUnspentDb hashPreimage =
      .ok ⟨chainView.genesisHash, ⟨E.stdHash f.headerBlob, some f.header⟩,
        f.signature, chainView.tipIndex + 1, newUnspentDb⟩ := by
  refine (ChainView.extend_eq_ok_iff E).mpr
    ⟨f.headerBlob, f.header_bytes, rfl, ?_⟩
  unfold ChainView.checkTipSignature
  rw [if_neg hgenesis]
  unfold checkHeaderSignature
  refine Except.bind_eq_ok_iff.mpr ⟨some f.header, rfl, ?_⟩
  refine Except.bind_eq_ok_iff.mpr ⟨some (serverProofOfSpace E), rfl, ?_⟩
  refine Except.bind_eq_ok (Except.bind_eq_ok f.header_bytes rfl) ?_
  rw [Except.raiseIf_eq_ok_iff]
  have hsign : f.signature = EORSignature.sign (plotPublicKey E)
      (E.stdHash f.headerBlob) := by
    unfold signature
    rw [hE.hash256_eq]
    rfl
  rw [hsign]
  change ¬ (EORSignature.validate _ [(plotPublicKey E, _)] = false)
  rw [EORSignature.validate_sign]
  simp

end Farmed

/-- The heap of a request is one `RAM_DB`. -/
theorem newChainView_of_farmed {chainView : ChainView}
    {spendBundles : List SpendBundle}
    {coinbasePuzzleHash feesPuzzleHash : Bytes32} {now : ℕ}
    (f : Farmed E chainView spendBundles coinbasePuzzleHash feesPuzzleHash now)
    {db : Ref} {heap : Heap} (hcls : (heap db).cls = .ramDB) :
    (newChainView E chainView spendBundles coinbasePuzzleHash feesPuzzleHash db
        db now).run heap =
      (chainView.augmentChainView E f.header f.signature db db blockReward
        now).run (heap.put db (f.stored (heap db))) := by
  have hfarm := (farmForChainView_eq_ok_iff E).mpr ⟨f, rfl, rfl, rfl⟩
  have hadd : ∀ (heap : Heap) (blob : Bytes), (heap db).cls = .ramDB →
      (addPreimage E db blob).run heap =
        (.ok (), heap.put db ((heap db).addPreimage E blob)) := by
    intro heap blob hcls
    simp [addPreimage, Exec.run_bind, hcls, DatabaseClass.isStorage]
  have hcls' : ((heap.put db ((heap db).addPreimage E f.headerBlob)) db).cls =
      .ramDB := by
    simpa using hcls
  have hput : (heap.put db ((heap db).addPreimage E f.headerBlob)).put db
      (((heap.put db ((heap db).addPreimage E f.headerBlob)) db).addPreimage E
        f.bodyBlob) = heap.put db (f.stored (heap db)) := by
    funext other
    by_cases hother : other = db
    · subst other
      simp [Farmed.stored]
    · simp [Heap.put, hother]
  unfold newChainView
  rw [hfarm, Exec.run_bind_of_ok (Exec.run_ofExcept _ _)]
  have hheader : f.header.bytes = .ok f.headerBlob := f.header_bytes
  have hbody : f.body.bytes E = .ok f.bodyBlob := f.body_bytes
  simp only [hheader, hbody]
  rw [Exec.run_bind_of_ok (Exec.run_ofExcept _ _),
    Exec.run_bind_of_ok (hadd heap f.headerBlob hcls),
    Exec.run_bind_of_ok (Exec.run_ofExcept _ _),
    Exec.run_bind_of_ok (hadd _ f.bodyBlob hcls'), hput]

end LedgerSim
