import LedgerSim.FarmerAgreement
import LedgerSim.Keychain
import LedgerSim.Mempool

/-!
# Spends that stand together

A block checks a spend against the coins that it creates and removes and
against the records of earlier blocks.  The spends of a block therefore split
into parts that are acceptable one by one, and parts that remove different
coins can be put together again.
-/

namespace LedgerSim

variable (E : Environment)

namespace LedgerAPI

/-- The coin is stored, and its record lets the next block remove it. -/
def Confirmed (server : LedgerAPI) (coin : Coin) : Prop :=
  coin.bytes E ∈ server.db.stored ∧
    ∃ unspent, server.db.unspentForCoinName (coin.name E) = some unspent ∧
      unspent.Spendable server.chainView.tipIndex

/-- The index from which the next block counts the age of a coin. -/
def confirmedAt (server : LedgerAPI) (coin : Coin) : ℕ :=
  match server.db.unspentForCoinName (coin.name E) with
  | some unspent => unspent.confirmedBlockIndex
  | none => server.chainView.tipIndex + 1

/-- A context of the next block, which removes at least these coins. -/
structure NextContext (server : LedgerAPI) (removals : List Bytes32)
    (coin : Coin) (context : ConditionContext) : Prop where
  blockIndex : context.blockIndex = server.chainView.tipIndex + 1
  creationTime : context.creationTime = server.now
  removals : removals ⊆ context.removals
  confirmed : context.confirmed E coin = some (server.confirmedAt E coin)

/-- The spend reveals the puzzle of its coin, and the next block finds its
conditions to hold. -/
structure Passes (server : LedgerAPI) (removals : List Bytes32)
    (claim : CoinSolution) (npc : Npc) : Prop where
  coinName : npc.coinName = claim.coin.name E
  puzzleHash : npc.puzzleHash = claim.coin.puzzleHash
  checks : ∀ context, server.NextContext E removals claim.coin context →
    checkConditionsDict E claim.coin npc.conditionsDict context = .ok ()

end LedgerAPI

def claimedNames (claims : List CoinSolution) : List Bytes32 :=
  claims.map fun claim => claim.coin.name E

/-- Claims that the next block can make together, beside its reward coins, when
it removes at least these coins. -/
structure JointSpends (server : LedgerAPI) (rewards : List Coin)
    (removals : List Bytes32) (claims : List CoinSolution) where
  npcList : List Npc
  outputs : List Coin
  npcList_eq : npcsOf E claims = .ok npcList
  outputs_eq : createdOutputs E npcList = .ok outputs
  amounts : ∀ coin ∈ outputs, coin.amount < maxCoinAmount
  outputs_nodup : outputs.Nodup
  claims_nodup : (claims.map CoinSolution.coin).Nodup
  passes : List.Forall₂ (server.Passes E removals) claims npcList
  spendable : ∀ claim ∈ claims,
    claim.coin ∈ rewards ++ outputs ∨ server.Confirmed E claim.coin

variable {E} {server : LedgerAPI} {rewards : List Coin}
  {removals : List Bytes32} {claims claims' : List CoinSolution}
  {blobs : List Bytes}

theorem createdOutputs_append_eq_ok {npcList npcList' : List Npc}
    {outputs outputs' : List Coin}
    (h : createdOutputs E npcList = .ok outputs)
    (h' : createdOutputs E npcList' = .ok outputs') :
    createdOutputs E (npcList ++ npcList') = .ok (outputs ++ outputs') := by
  obtain ⟨lists, hlists, h⟩ := Except.bind_eq_ok_iff.mp h
  obtain ⟨lists', hlists', h'⟩ := Except.bind_eq_ok_iff.mp h'
  have hall := Except.mapM_append_eq_ok_iff.mpr
    ⟨lists, lists', hlists, hlists', rfl⟩
  apply Except.bind_eq_ok hall
  rw [List.flatten_append, Except.ok.inj h, Except.ok.inj h']

namespace JointSpends

/-- What the spends create comes from the coins that they remove. -/
theorem exists_parent (hE : E.Lawful)
    (s : JointSpends E server rewards removals claims)
    {coin : Coin} (hcoin : coin ∈ s.outputs) :
    ∃ claim ∈ claims, coin.parentCoinInfo = claim.coin.name E := by
  obtain ⟨npc, hnpc, condition, -, hcreated⟩ :=
    (mem_outputs_iff E s.outputs_eq).mp hcoin
  have hparent : coin.parentCoinInfo = npc.coinName := by
    obtain ⟨_, _, _, -, -, rfl⟩ := (createdOutput_eq_ok_iff E).mp hcreated
    rfl
  obtain ⟨claim, hclaim, hread⟩ :=
    (npcsOf_readAs hE s.npcList_eq).exists_of_mem_right hnpc
  exact ⟨claim, hclaim, hparent.trans hread.coinName⟩

/-- Parts that remove different coins stand together. -/
def append (hE : E.Lawful) (hfree : CollisionFree E blobs)
    (s : JointSpends E server rewards removals claims)
    (s' : JointSpends E server rewards removals claims')
    (hknown : ∀ claim ∈ claims ++ claims', claim.coin.bytes E ∈ blobs)
    (hdisjoint : ∀ claim ∈ claims, ∀ claim' ∈ claims',
      claim.coin ≠ claim'.coin) :
    JointSpends E server rewards removals (claims ++ claims') where
  npcList := s.npcList ++ s'.npcList
  outputs := s.outputs ++ s'.outputs
  npcList_eq := Except.mapM_append_eq_ok_iff.mpr
    ⟨s.npcList, s'.npcList, s.npcList_eq, s'.npcList_eq, rfl⟩
  outputs_eq := createdOutputs_append_eq_ok s.outputs_eq s'.outputs_eq
  amounts := List.forall_mem_append.mpr ⟨s.amounts, s'.amounts⟩
  outputs_nodup := by
    apply s.outputs_nodup.append s'.outputs_nodup
    intro coin hcoin hcoin'
    obtain ⟨claim, hclaim, hparent⟩ := s.exists_parent hE hcoin
    obtain ⟨claim', hclaim', hparent'⟩ := s'.exists_parent hE hcoin'
    apply hdisjoint claim hclaim claim' hclaim'
    apply hfree.name_inj hE
    · exact hknown claim (List.mem_append_left _ hclaim)
    · exact hknown claim' (List.mem_append_right _ hclaim')
    · exact hparent.symm.trans hparent'
  claims_nodup := by
    rw [List.map_append]
    apply s.claims_nodup.append s'.claims_nodup
    intro coin hcoin hcoin'
    obtain ⟨claim, hclaim, rfl⟩ := List.mem_map.mp hcoin
    obtain ⟨claim', hclaim', heq⟩ := List.mem_map.mp hcoin'
    exact hdisjoint claim hclaim claim' hclaim' heq.symm
  passes := List.rel_append s.passes s'.passes
  spendable := by
    intro claim hclaim
    simp only [List.mem_append] at hclaim ⊢
    rcases hclaim with hclaim | hclaim
    · have hspendable := s.spendable claim hclaim
      rw [List.mem_append] at hspendable
      tauto
    · have hspendable := s'.spendable claim hclaim
      rw [List.mem_append] at hspendable
      tauto

end JointSpends

/-! ## The spends of an accepted block -/

/-- The context in which an accepted block checks its conditions. -/
def AcceptedBody.context {tipIndex : ℕ} {body : Body}
    {hashPreimage : Bytes32 → Option Bytes}
    {unspentFor : Bytes32 → Option Unspent} {coinbaseReward timestamp : ℤ}
    (a : AcceptedBody E tipIndex body hashPreimage unspentFor coinbaseReward
      timestamp) : ConditionContext :=
  ⟨tipIndex + 1, a.removals,
    coinToUnspent E (overlay unspentFor
      (ramUnspentDB E a.additions (tipIndex + 1)).get) a.cpcList, timestamp⟩

section Accepted

variable {bundles : List SpendBundle}
  {coinbasePuzzleHash feesPuzzleHash : Bytes32} {now : ℕ} {db : Database}
  {f : Farmed E server.chainView bundles coinbasePuzzleHash feesPuzzleHash now}

theorem Farmed.checked_claims (hE : E.Lawful) (hfree : CollisionFree E blobs)
    (a : f.Accepted db) (hcovers : Farmed.Covers (E := E) blobs f.claims
      a.additions (f.stored db).hashPreimage) :
    List.Forall₂ (fun claim npc => npc.coinName = claim.coin.name E ∧
      npc.puzzleHash = claim.coin.puzzleHash ∧
        checkConditionsDict E claim.coin npc.conditionsDict a.context =
          .ok () ∧
        npcEntry E (solutionEntry E claim) = .ok npc ∧
        ∃ cpc ∈ a.cpcList, cpc.coin = claim.coin) f.claims a.npcList := by
  have hentries := Except.mapM_eq_ok_iff.mp
    ((f.npcsOf_claims hE).symm.trans a.npcList_eq)
  have hclaims := (List.forall₂_and_left f.claims a.npcList).mpr
    ⟨fun _ hclaim => hclaim, hentries⟩
  have hnpcs := (List.forall₂_and_left a.npcList f.claims).mpr
    ⟨fun _ hnpc => hnpc, hclaims.flip⟩
  refine hnpcs.flip.imp ?_
  rintro claim npc ⟨hnpc, hclaim, hentry⟩
  obtain ⟨hname, -, -⟩ := npcEntry_solutionEntry E hE hentry
  obtain ⟨cpc, hcpc, hresolved⟩ := Except.exists_of_mapM_eq_ok a.resolved hnpc
  obtain ⟨coin, hcoin, hresolved⟩ := Except.bind_eq_ok_iff.mp hresolved
  rw [hname] at hcoin
  obtain rfl := hcovers.resolve hE hfree a.additions_nodup hclaim hcoin
  have hpuzzle := a.puzzleHash cpc hcpc
  have hcheck := (checkSolutions_split_ok_iff.mp a.solutions).1 cpc hcpc
  obtain rfl := Except.ok.inj hresolved
  exact ⟨hname, hpuzzle, hcheck, hentry, _, hcpc, rfl⟩

/-- What was acceptable once stands in the next block, if the records that the
ages count from have been kept and the coins can still be spent. -/
def JointSpends.ofAccepted (hE : E.Lawful) (hfree : CollisionFree E blobs)
    (hremovals : claimedNames E f.claims ⊆ removals)
    (hnow : now ≤ server.now) (a : f.Accepted db)
    (hcovers : Farmed.Covers (E := E) blobs f.claims a.additions
      (f.stored db).hashPreimage)
    (hconfirmed : ∀ claim ∈ f.claims, ∃ unspent : Unspent,
      overlay db.unspentForCoinName (ramUnspentDB E a.additions
          (server.chainView.tipIndex + 1)).get (claim.coin.name E) =
        some unspent ∧
      unspent.confirmedBlockIndex = server.confirmedAt E claim.coin)
    (hspendable : ∀ claim ∈ f.claims,
      claim.coin ∈ rewards ++ a.outputs ∨ server.Confirmed E claim.coin) :
    JointSpends E server rewards removals f.claims where
  npcList := a.npcList
  outputs := a.outputs
  npcList_eq := (f.npcsOf_claims hE).symm.trans a.npcList_eq
  outputs_eq := a.outputs_eq
  amounts coin hcoin := a.amounts coin (mem_additions_iff.mpr (.inr hcoin))
  outputs_nodup := by
    have hnodup := List.Nodup.of_map _ a.additions_nodup
    exact (List.nodup_cons.mp (List.nodup_cons.mp hnodup).2).2
  claims_nodup := by
    have hnodup := a.removals_nodup
    change a.removals.Nodup at hnodup
    rw [f.removals_eq hE a] at hnodup
    apply List.Nodup.of_map (Coin.name E)
    rw [List.map_map]
    exact hnodup
  passes := by
    have hchecked := (List.forall₂_and_left f.claims a.npcList).mpr
      ⟨fun _ hclaim => hclaim, f.checked_claims hE hfree a hcovers⟩
    refine hchecked.imp ?_
    rintro claim npc ⟨hclaim, hname, hpuzzle, hcheck, -, cpc, hcpc, hcoin⟩
    refine ⟨hname, hpuzzle, fun context hcontext => ?_⟩
    have hremoved : a.context.removals ⊆ context.removals := by
      change a.removals ⊆ _
      rw [f.removals_eq hE a]
      exact List.Subset.trans hremovals hcontext.removals
    have hage : context.confirmed E claim.coin =
        a.context.confirmed E claim.coin := by
      obtain ⟨unspent, hrecord, hindex⟩ := hconfirmed claim hclaim
      rw [hcontext.confirmed, ← hindex]
      have hget := coinToUnspent_get_of_mem E (overlay db.unspentForCoinName
        (ramUnspentDB E a.additions
          (server.chainView.tipIndex + 1)).get) hcpc
      rw [hcoin, hrecord] at hget
      simp [ConditionContext.confirmed, AcceptedBody.context, hget]
    apply checkConditionsDict_of_later _ _ hremoved hage hcheck
    · exact hcontext.blockIndex.ge
    · rw [hcontext.creationTime]
      exact Int.ofNat_le.mpr hnow
  spendable := hspendable

end Accepted

/-! ## Accepting the spends together -/

theorem forall₂_zipWith {α β γ : Type} {R : α → β → Prop} (g : α → β → γ)
    {xs : List α} {ys : List β} (h : List.Forall₂ R xs ys) :
    List.Forall₂ (fun y z => ∃ x ∈ xs, R x y ∧ z = g x y) ys
      (List.zipWith g xs ys) := by
  induction h with
  | nil => exact .nil
  | @cons x y xs ys hxy _ ih =>
      rw [List.zipWith_cons_cons]
      refine .cons ⟨x, List.mem_cons_self, hxy, rfl⟩ (ih.imp ?_)
      rintro y z ⟨x', hx', h⟩
      exact ⟨x', List.mem_cons_of_mem _ hx', h⟩

theorem map_zipWith_left {α β γ δ : Type} {R : α → β → Prop}
    {g : α → β → γ} {left : γ → δ} {left' : α → δ}
    (hleft : ∀ x y, left (g x y) = left' x) {xs : List α} {ys : List β}
    (h : List.Forall₂ R xs ys) :
    (List.zipWith g xs ys).map left = xs.map left' := by
  induction h with
  | nil => rfl
  | cons _ _ ih => simp [hleft, ih]

/-- The pairs that the validator reads from the entries are those of the
claims. -/
theorem keyPairs_of_readAs {npcList : List Npc} {cpcList : List Cpc}
    (hread : List.Forall₂ (CoinSolution.ReadAs E) claims npcList)
    (hdicts : List.Forall₂ (fun npc cpc =>
      Cpc.conditionsDict cpc = Npc.conditionsDict npc) npcList cpcList) :
    keyPairs cpcList = solutionPairs E claims := by
  have hsame : (cpcList.mapM fun cpc =>
      hashKeyPairsForConditionsDict cpc.conditionsDict) =
        claims.mapM fun claim => hashKeyPairsForSolution E claim.solution := by
    symm
    apply Except.mapM_eq_of_forall₂
    refine (hread.comp hdicts).imp ?_
    rintro claim cpc ⟨npc, hclaim, hdict⟩
    unfold hashKeyPairsForSolution
    rw [hclaim.conditionsDict, hdict]
    rfl
  unfold keyPairs solutionPairs
  rw [hsame]

/-- A coin that the block creates or that is stored is found by its name. -/
theorem coinPointerObj_of_created_or_stored (hE : E.Lawful)
    (hfree : CollisionFree E blobs) {additions : List Coin}
    (hnodup : (additions.map (Coin.name E)).Nodup)
    (hadded : ∀ coin ∈ additions, coin.bytes E ∈ blobs) {db : Database}
    (hkeyed : db.Keyed E) (hstored : ∀ blob ∈ db.stored, blob ∈ blobs)
    {coin : Coin} (hcoin : coin ∈ additions ∨ coin.bytes E ∈ db.stored) :
    coinPointerObj E
        (overlay (ramStorageOf E additions).hashPreimage db.hashPreimage)
        (coin.name E) = .ok coin := by
  rcases hcoin with hcoin | hcoin
  · unfold coinPointerObj
    rw [overlay_of_top (ramStorageOf_of_mem E hnodup hcoin)]
    exact Coin.fromBytes_bytes E hE coin
  · exact coinPointerObj_of_stored hE hfree hnodup hadded hkeyed hstored hcoin

namespace JointSpends

def cpcList (s : JointSpends E server rewards removals claims) : List Cpc :=
  List.zipWith
    (fun claim npc => ⟨claim.coin, npc.puzzleHash, npc.conditionsDict⟩)
    claims s.npcList

theorem forall₂_cpcList (s : JointSpends E server rewards removals claims) :
    List.Forall₂ (fun npc cpc => ∃ claim ∈ claims,
      server.Passes E removals claim npc ∧
        cpc = ⟨claim.coin, npc.puzzleHash, npc.conditionsDict⟩)
      s.npcList s.cpcList :=
  forall₂_zipWith _ s.passes

theorem map_coin_cpcList (s : JointSpends E server rewards removals claims) :
    s.cpcList.map Cpc.coin = claims.map CoinSolution.coin := by
  unfold cpcList
  apply map_zipWith_left _ s.passes
  exact fun _ _ => rfl

theorem coinName_npcList (hE : E.Lawful)
    (s : JointSpends E server rewards removals claims) :
    s.npcList.map Npc.coinName = claimedNames E claims :=
  npcsOf_coinName E hE s.npcList_eq

theorem mem_cpcList {s : JointSpends E server rewards removals claims}
    {cpc : Cpc} (hcpc : cpc ∈ s.cpcList) :
    ∃ claim ∈ claims, ∃ npc,
      server.Passes E removals claim npc ∧
        cpc = ⟨claim.coin, npc.puzzleHash, npc.conditionsDict⟩ := by
  obtain ⟨npc, -, claim, hclaim, hpasses, hcpc⟩ :=
    s.forall₂_cpcList.exists_of_mem_right hcpc
  exact ⟨claim, hclaim, npc, hpasses, hcpc⟩

theorem claimedNames_nodup (hE : E.Lawful) (hfree : CollisionFree E blobs)
    (s : JointSpends E server rewards removals claims)
    (hclaims : ∀ claim ∈ claims, claim.coin.bytes E ∈ blobs) :
    (claimedNames E claims).Nodup := by
  have hnames : claimedNames E claims =
      (claims.map CoinSolution.coin).map (Coin.name E) := by
    rw [List.map_map]
    rfl
  rw [hnames]
  apply s.claims_nodup.map_on
  intro coin hcoin coin' hcoin' heq
  obtain ⟨claim, hclaim, rfl⟩ := List.mem_map.mp hcoin
  obtain ⟨claim', hclaim', rfl⟩ := List.mem_map.mp hcoin'
  exact hfree.name_inj hE (hclaims claim hclaim) (hclaims claim' hclaim') heq

/-- Reward coins come from a block index, and outputs from a coin. -/
theorem additions_nodup (hE : E.Lawful) (hfree : CollisionFree E blobs)
    (s : JointSpends E server rewards removals claims)
    (hindex : indexHash (server.chainView.tipIndex + 1) ∉ knownNames E blobs)
    (hclaims : ∀ claim ∈ claims, claim.coin.bytes E ∈ blobs)
    (hadded : ∀ coin ∈ rewards ++ s.outputs, coin.bytes E ∈ blobs)
    (hrewards : rewards.Nodup) (hparents : ∀ coin ∈ rewards,
      coin.parentCoinInfo = indexHash (server.chainView.tipIndex + 1)) :
    ((rewards ++ s.outputs).map (Coin.name E)).Nodup := by
  have hnodup : (rewards ++ s.outputs).Nodup := by
    apply hrewards.append s.outputs_nodup
    intro coin hreward houtput
    obtain ⟨claim, hclaim, hparent⟩ := s.exists_parent hE houtput
    rw [hparents coin hreward] at hparent
    exact hindex ⟨claim.coin, hclaims claim hclaim, hparent.symm⟩
  apply hnodup.map_on
  intro coin hcoin coin' hcoin' heq
  exact hfree.name_inj hE (hadded coin hcoin) (hadded coin' hcoin') heq

/-- In the context of the block every claimed coin has its age. -/
theorem nextContext (hE : E.Lawful)
    (s : JointSpends E server rewards removals claims)
    (hremovals : removals ⊆ claimedNames E claims) {cpc : Cpc}
    (hcpc : cpc ∈ s.cpcList) :
    server.NextContext E removals cpc.coin
      ⟨server.chainView.tipIndex + 1, s.npcList.map Npc.coinName,
        coinToUnspent E (overlay server.db.unspentForCoinName
          (ramUnspentDB E (rewards ++ s.outputs)
            (server.chainView.tipIndex + 1)).get) s.cpcList,
        server.now⟩ where
  blockIndex := rfl
  creationTime := rfl
  removals := by
    rw [← s.coinName_npcList hE] at hremovals
    exact hremovals
  confirmed := by
    unfold ConditionContext.confirmed LedgerAPI.confirmedAt
    rw [coinToUnspent_get_of_mem E _ hcpc]
    cases hrecord : server.db.unspentForCoinName (cpc.coin.name E) with
    | some unspent => simp [overlay_of_top hrecord]
    | none =>
        obtain ⟨claim, hclaim, npc, -, rfl⟩ := mem_cpcList hcpc
        rcases s.spendable claim hclaim with hadded | ⟨-, unspent, hfound, -⟩
        · have hname : claim.coin.name E ∈
              (rewards ++ s.outputs).map (Coin.name E) :=
            List.mem_map_of_mem hadded
          rw [overlay_of_top_none hrecord, ramUnspentDB_get, if_pos hname]
          rfl
        · rw [hrecord] at hfound
          cases hfound

theorem claimedFees_eq (hE : E.Lawful)
    (s : JointSpends E server rewards removals claims) :
    claimedFees E claims =
      .ok ((claims.map fun claim => claim.coin.amount).sum -
        (s.outputs.map Coin.amount).sum) := by
  have hread := npcsOf_readAs hE s.npcList_eq
  let bundle : SpendBundle := ⟨claims, ⟨zero96⟩⟩
  have houtputs : bundle.additions E = .ok s.outputs :=
    (createdOutputs_of_readAs hread).symm.trans s.outputs_eq
  unfold claimedFees SpendBundle.fees
  apply Except.bind_eq_ok houtputs
  unfold SpendBundle.removals
  rw [List.map_map]
  rfl

/-- A block that is farmed from the claims is accepted, if its reward coins are
the ones that the spends stand beside. -/
theorem exists_accepted (hE : E.Lawful) (hserver : server.WellFormed E)
    (hfree : CollisionFree E blobs)
    (hindex : indexHash (server.chainView.tipIndex + 1) ∉ knownNames E blobs)
    {bundles : List SpendBundle} {coinbasePuzzleHash feesPuzzleHash : Bytes32}
    (f : Farmed E server.chainView bundles coinbasePuzzleHash feesPuzzleHash
      server.now)
    (s : JointSpends E server rewards removals claims)
    (hclaimed : f.claims = claims)
    (hremovals : removals ⊆ claimedNames E claims)
    (hrewards : [f.body.coinbaseCoin, f.body.feesCoin] = rewards)
    (hdistinct : f.body.coinbaseCoin ≠ f.body.feesCoin)
    (hfees : f.fees < maxCoinAmount)
    (hclaims : ∀ claim ∈ claims, claim.coin.bytes E ∈ blobs)
    (hadded : ∀ coin ∈ rewards ++ s.outputs, coin.bytes E ∈ blobs)
    (hstored : ∀ blob ∈ (f.stored server.db).stored, blob ∈ blobs) :
    ∃ a : f.Accepted server.db, a.outputs = s.outputs := by
  subst hclaimed hrewards
  have hnodup := s.additions_nodup hE hfree hindex hclaims hadded
    (by simpa using hdistinct) (by
      intro coin hcoin
      rcases List.mem_pair.mp hcoin with rfl | rfl <;> rfl)
  have hgrows := f.grows E server.db
  have hread := npcsOf_readAs hE s.npcList_eq
  have hcpcs := s.forall₂_cpcList
  obtain ⟨pairs, hpairs, hvalid⟩ : ∃ pairs,
      solutionPairs E f.claims = .ok pairs ∧
        f.bundle.aggregatedSignature.validate E pairs = .ok true := by
    have hsigned := f.signed
    rw [validateSpendBundleSignature_eq, f.coinSolutions_eq] at hsigned
    exact Except.bind_eq_ok_iff.mp hsigned
  refine ⟨{
    npcList := s.npcList
    outputs := s.outputs
    cpcList := s.cpcList
    hashKeyPairs := pairs
    npcList_eq := (f.npcsOf_claims hE).trans s.npcList_eq
    outputs_eq := s.outputs_eq
    amounts := ?_
    additions_nodup := hnodup
    removals_nodup := ?_
    resolved := ?_
    puzzleHash := ?_
    spendable := ?_
    fees := ?_
    solutions := ?_
    signature := hvalid }, rfl⟩
  · intro coin hcoin
    rcases mem_additions_iff.mp hcoin with hreward | houtput
    · rcases List.mem_pair.mp hreward with rfl | rfl
      · exact (by decide : blockReward < maxCoinAmount)
      · exact hfees
    · exact s.amounts coin houtput
  · rw [s.coinName_npcList hE]
    exact s.claimedNames_nodup hE hfree hclaims
  · apply Except.mapM_eq_ok_iff.mpr
    refine hcpcs.imp ?_
    rintro npc cpc ⟨claim, hclaim, hpasses, rfl⟩
    have hfound : claim.coin ∈
          [f.body.coinbaseCoin, f.body.feesCoin] ++ s.outputs ∨
        claim.coin.bytes E ∈ (f.stored server.db).stored :=
      (s.spendable claim hclaim).imp id fun h => hgrows.stored h.1
    unfold resolveCoin
    rw [hpasses.coinName]
    exact Except.bind_eq_ok (coinPointerObj_of_created_or_stored hE hfree hnodup
      hadded (hgrows.keyed hserver.keyed) hstored hfound) rfl
  · intro cpc hcpc
    obtain ⟨claim, -, npc, hpasses, rfl⟩ := mem_cpcList hcpc
    exact hpasses.puzzleHash
  · intro cpc hcpc
    obtain ⟨claim, hclaim, npc, -, rfl⟩ := mem_cpcList hcpc
    exact (s.spendable claim hclaim).imp id And.right
  · have hcoins : (s.cpcList.map fun cpc => cpc.coin.amount) =
        f.claims.map fun claim => claim.coin.amount := by
      have hmap := congrArg (List.map Coin.amount) s.map_coin_cpcList
      rwa [List.map_map, List.map_map] at hmap
    have hsum := Except.ok.inj (f.claimedFees_eq.symm.trans
      (s.claimedFees_eq hE))
    unfold blockFees
    rw [hcoins, List.map_cons, List.map_cons, List.sum_cons, List.sum_cons]
    change blockReward + (f.fees + _) - _ = blockReward
    rw [hsum]
    ring
  · rw [checkSolutions_split_ok_iff]
    constructor
    · intro cpc hcpc
      have hcontext := s.nextContext hE hremovals hcpc
      obtain ⟨claim, hclaim, npc, hpasses, rfl⟩ := mem_cpcList hcpc
      exact hpasses.checks _ hcontext
    · rw [← hpairs]
      apply keyPairs_of_readAs hread
      refine hcpcs.imp ?_
      rintro npc cpc ⟨claim, -, -, rfl⟩
      rfl

end JointSpends

end LedgerSim
