import LedgerSim.Augmentation
import LedgerSim.SpendOrder

/-!
# The order of the spends in a block

Two blocks whose solution programs quote the same entries in a different order
are accepted or rejected together, and leave the same records and preimages.
Every list that validation builds is permuted with the entries, and every check
reads these lists through membership, distinctness or a sum.
-/

namespace LedgerSim

variable (E : Environment)

/-- Aggregate verification does not depend on the order of the pairs. -/
def Environment.VerifyOrderFree : Prop :=
  ∀ (signature : E.PrependSignature)
    (pairs pairs' : List (Bytes32 × E.BlsPublicKey)), pairs.Perm pairs' →
    E.verify signature (pairs.map Prod.fst) (pairs.map Prod.snd) =
      E.verify signature (pairs'.map Prod.fst) (pairs'.map Prod.snd)

def quoted (entries : List SExp) : Program :=
  .ofList [E.quoteKeyword, .ofList entries]

variable {E}

/-! ## Checks that do not see the order -/

theorem BLSSignature.validate_perm (hverify : E.VerifyOrderFree)
    {self : BLSSignature} {pairs pairs' : List AggsigPair}
    (hperm : pairs.Perm pairs') (h : self.validate E pairs = .ok true) :
    self.validate E pairs' = .ok true := by
  rcases eq_or_ne pairs [] with rfl | hne
  · obtain rfl := List.nil_perm.mp hperm
    exact h
  · have hne' : pairs' ≠ [] := by
      rintro rfl
      exact hne (List.perm_nil.mp hperm)
    obtain ⟨decoded, signature, hdecoded, hsignature, hok⟩ :=
      (BLSSignature.validate_eq_true_iff E hne).mp h
    obtain ⟨decoded', hdecoded', hperm'⟩ := Except.mapM_perm hperm hdecoded
    refine (BLSSignature.validate_eq_true_iff E hne').mpr
      ⟨decoded', signature, hdecoded', hsignature, ?_⟩
    rw [← hverify signature decoded decoded' hperm']
    exact hok

theorem ramStorageOf_perm {additions additions' : List Coin}
    (hperm : additions.Perm additions')
    (hnodup : (additions.map (Coin.name E)).Nodup) :
    (ramStorageOf E additions).hashPreimage =
      (ramStorageOf E additions').hashPreimage := by
  have hnames := hperm.map (Coin.name E)
  have hnodup' := hnames.nodup_iff.mp hnodup
  funext name
  by_cases hmem : name ∈ additions.map (Coin.name E)
  · obtain ⟨coin, hcoin, rfl⟩ := List.mem_map.mp hmem
    rw [ramStorageOf_of_mem E hnodup hcoin,
      ramStorageOf_of_mem E hnodup' (hperm.mem_iff.mp hcoin)]
  · have hmem' : name ∉ additions'.map (Coin.name E) :=
      fun h => hmem (hnames.mem_iff.mpr h)
    rw [ramStorageOf_of_notMem E hnodup hmem,
      ramStorageOf_of_notMem E hnodup' hmem']

theorem ramUnspentDB_perm {additions additions' : List Coin}
    (hperm : additions.Perm additions') (index : ℕ) :
    (ramUnspentDB E additions index).get =
      (ramUnspentDB E additions' index).get := by
  funext name
  rw [ramUnspentDB_get, ramUnspentDB_get]
  have hiff := (hperm.map (Coin.name E)).mem_iff (a := name)
  simp only [hiff]

theorem createdOutputs_perm {npcList npcList' : List Npc}
    (hperm : npcList.Perm npcList') {outputs : List Coin}
    (h : createdOutputs E npcList = .ok outputs) :
    ∃ outputs', createdOutputs E npcList' = .ok outputs' ∧
      outputs.Perm outputs' := by
  obtain ⟨parts, hparts, h⟩ := Except.bind_eq_ok_iff.mp h
  obtain rfl := Except.ok.inj h
  obtain ⟨parts', hparts', hperm'⟩ := Except.mapM_perm hperm hparts
  exact ⟨parts'.flatten, Except.bind_eq_ok hparts' rfl, hperm'.flatten⟩

theorem blockFees_perm {additions additions' : List Coin}
    {cpcList cpcList' : List Cpc} (hadditions : additions.Perm additions')
    (hcpcs : cpcList.Perm cpcList') :
    blockFees additions cpcList = blockFees additions' cpcList' := by
  unfold blockFees
  rw [(hadditions.map Coin.amount).sum_eq,
    (hcpcs.map fun cpc => cpc.coin.amount).sum_eq]

theorem Condition.Holds.of_subset {removals removals' : List Bytes32}
    {blockIndex : ℕ} {confirmed : Option ℕ} {time : ℤ} {coin : Coin}
    {condition : Condition} (hsub : removals ⊆ removals')
    (h : condition.Holds E removals blockIndex confirmed time coin) :
    condition.Holds E removals' blockIndex confirmed time coin where
  coinConsumed := by
    intro hopcode argument hargument
    obtain ⟨name, hname, heq⟩ := h.coinConsumed hopcode argument hargument
    exact ⟨name, hsub hname, heq⟩
  myCoinId := h.myCoinId
  blockIndexExceeds := h.blockIndexExceeds
  blockAgeExceeds := h.blockAgeExceeds
  timeExceeds := h.timeExceeds

/-- The conditions are checked against the same answers in another order. -/
theorem checkSolutions_perm {blockIndex : ℕ} {removals removals' : List Bytes32}
    {unspentFor : Bytes32 → Option Unspent} {time : ℤ}
    {spends spends' : List Spend} {cpcList cpcList' : List Cpc}
    (hspends : List.Forall₂ (fun spend cpc => spend.coin = cpc.coin ∧
      cpc.conditionsDict = conditionsByOpcode spend.conditions)
        spends cpcList)
    (hspends' : List.Forall₂ (fun spend cpc => spend.coin = cpc.coin ∧
      cpc.conditionsDict = conditionsByOpcode spend.conditions)
        spends' cpcList')
    (hperm : spends.Perm spends') (hremovals : removals ⊆ removals')
    {pairs : List AggsigPair}
    (h : checkSolutions E ⟨blockIndex, removals,
      coinToUnspent E unspentFor cpcList, time⟩ cpcList = .ok pairs) :
    ∃ pairs', checkSolutions E ⟨blockIndex, removals',
        coinToUnspent E unspentFor cpcList', time⟩ cpcList' = .ok pairs' ∧
      pairs.Perm pairs' := by
  obtain ⟨hholds, hpairs⟩ := (checkSolutions_eq_ok_iff E hspends).mp h
  obtain ⟨pairs', hpairs', hperm'⟩ := Except.mapM_perm
    (hperm.flatMap_right fun spend => spend.withOpcode .aggSig) hpairs
  refine ⟨pairs', (checkSolutions_eq_ok_iff E hspends').mpr
    ⟨?_, hpairs'⟩, hperm'⟩
  intro spend hspend condition hcondition
  have hspend₀ := hperm.mem_iff.mpr hspend
  have hpermits := hholds spend hspend₀ condition hcondition
  obtain ⟨cpc, hcpc, hcoin, -⟩ := hspends.exists_of_mem_left hspend₀
  obtain ⟨cpc', hcpc', hcoin', -⟩ := hspends'.exists_of_mem_left hspend
  have hrecord := coinToUnspent_get_of_mem E unspentFor hcpc
  have hrecord' := coinToUnspent_get_of_mem E unspentFor hcpc'
  rw [← hcoin] at hrecord
  rw [← hcoin'] at hrecord'
  unfold ConditionContext.Permits ConditionContext.confirmed at hpermits ⊢
  simp only [hrecord] at hpermits
  simp only [hrecord']
  exact hpermits.of_subset hremovals

/-! ## Acceptance -/

theorem AcceptedBody.of_perm (hverify : E.VerifyOrderFree) {tipIndex : ℕ}
    {body : Body} {hashPreimage : Bytes32 → Option Bytes}
    {unspentFor : Bytes32 → Option Unspent} {coinbaseReward timestamp : ℤ}
    {entries entries' : List SExp} {program' : Program}
    (hrun : E.run body.solutionProgram .null = .ok (.ofList entries))
    (hrun' : E.run program' .null = .ok (.ofList entries'))
    (hperm : entries.Perm entries')
    (a : AcceptedBody E tipIndex body hashPreimage unspentFor coinbaseReward
      timestamp) :
    ∃ a' : AcceptedBody E tipIndex { body with solutionProgram := program' }
        hashPreimage unspentFor coinbaseReward timestamp,
      a.additions.Perm a'.additions ∧ a.removals.Perm a'.removals := by
  obtain ⟨entries₀, hrun₀, hentries⟩ :=
    (namePuzzleConditionsList_eq_ok_iff E).mp a.npcList_eq
  have hsame : SExp.ofList entries₀ = .ofList entries :=
    Except.ok.inj (hrun₀.symm.trans hrun)
  have hentries : entries.mapM (npcEntry E) = .ok a.npcList := by
    rw [← SExp.forIter_ofList] at hentries ⊢
    rw [← hsame]
    exact hentries
  -- the lists that validation builds, in the order of the new entries
  obtain ⟨npcList, hnpcs, hnpcPerm⟩ := Except.mapM_perm hperm hentries
  obtain ⟨outputs, houtputs, houtputPerm⟩ :=
    createdOutputs_perm hnpcPerm a.outputs_eq
  have hadditions : a.additions.Perm
      (body.coinbaseCoin :: body.feesCoin :: outputs) :=
    (houtputPerm.cons _).cons _
  obtain ⟨cpcList, hcpcs, hcpcPerm⟩ := Except.mapM_perm hnpcPerm a.resolved
  obtain ⟨spends, hspends, -, hmatch⟩ := mapM_blockSpend E
    (Except.mapM_eq_ok_iff.mp hentries) (Except.mapM_eq_ok_iff.mp a.resolved)
  obtain ⟨spends', hspends', -, hmatch'⟩ := mapM_blockSpend E
    (Except.mapM_eq_ok_iff.mp hnpcs) (Except.mapM_eq_ok_iff.mp hcpcs)
  have hspendPerm : spends.Perm spends' := by
    obtain ⟨spends'', h, hperm''⟩ := Except.mapM_perm hperm hspends
    obtain rfl : spends' = spends'' := Except.ok.inj (hspends'.symm.trans h)
    exact hperm''
  have hremovals := hnpcPerm.map Npc.coinName
  obtain ⟨pairs, hpairs, hpairPerm⟩ := checkSolutions_perm hmatch hmatch'
    hspendPerm hremovals.subset a.solutions
  have hstorage := ramStorageOf_perm hadditions a.additions_nodup
  have hdb := ramUnspentDB_perm (E := E) hadditions (tipIndex + 1)
  change (ramStorageOf E (body.coinbaseCoin :: body.feesCoin :: a.outputs)
    ).hashPreimage = _ at hstorage
  change (ramUnspentDB E (body.coinbaseCoin :: body.feesCoin :: a.outputs)
    (tipIndex + 1)).get = _ at hdb
  rw [hstorage] at hcpcs
  rw [hdb] at hpairs
  refine ⟨⟨npcList, outputs, cpcList, pairs, ?_, houtputs, ?_, ?_, ?_, hcpcs,
    ?_, ?_, ?_, hpairs, ?_⟩, hadditions, hremovals⟩
  · exact (namePuzzleConditionsList_eq_ok_iff E).mpr ⟨entries', hrun', hnpcs⟩
  · intro coin hcoin
    exact a.amounts coin (hadditions.mem_iff.mpr hcoin)
  · exact (hadditions.map (Coin.name E)).nodup_iff.mp a.additions_nodup
  · exact hremovals.nodup_iff.mp a.removals_nodup
  · intro cpc hcpc
    exact a.puzzleHash cpc (hcpcPerm.mem_iff.mpr hcpc)
  · intro cpc hcpc
    rcases a.spendable cpc (hcpcPerm.mem_iff.mpr hcpc) with hadded | hrecorded
    · exact .inl (hadditions.mem_iff.mp hadded)
    · exact .inr hrecorded
  · have hfees := blockFees_perm hadditions hcpcPerm
    exact hfees.symm.trans a.fees
  · exact BLSSignature.validate_perm hverify hpairPerm a.signature

theorem acceptNewBlock_of_perm
    (hquote : ∀ x args, E.runProgram (.ofList [E.quoteKeyword, x]) args = .ok x)
    (hverify : E.VerifyOrderFree) {chainView : ChainView}
    {header header' : Header} {hashPreimage : Bytes32 → Option Bytes}
    {unspentFor : Bytes32 → Option Unspent} {coinbaseReward timestamp : ℤ}
    {body : Body} {entries entries' : List SExp}
    (hperm : entries.Perm entries')
    (hextends' : header'.previousHash.hash = chainView.tipHash.hash)
    (hbody : header.bodyHash.obj E (Body.parse E) hashPreimage =
      .ok (some { body with solutionProgram := quoted E entries }))
    (hbody' : header'.bodyHash.obj E (Body.parse E) hashPreimage =
      .ok (some { body with solutionProgram := quoted E entries' }))
    {additions : List Coin} {removals : List Bytes32}
    (h : acceptNewBlock E chainView header hashPreimage unspentFor
      coinbaseReward timestamp = .ok (additions, removals)) :
    ∃ additions' removals',
      acceptNewBlock E chainView header' hashPreimage unspentFor
        coinbaseReward timestamp = .ok (additions', removals') ∧
      additions.Perm additions' ∧ removals.Perm removals' := by
  obtain ⟨-, body₀, hbody₀, a, rfl, rfl⟩ := (acceptNewBlock_eq_ok_iff E).mp h
  obtain rfl : { body with solutionProgram := quoted E entries } = body₀ := by
    simpa using hbody.symm.trans hbody₀
  have hrun : ∀ items : List SExp,
      E.run (quoted E items) .null = .ok (.ofList items) :=
    fun items => (run_eq_ok_iff E).mpr (hquote _ _)
  obtain ⟨a', hadditions, hremovals⟩ :=
    a.of_perm hverify (hrun entries) (hrun entries') hperm
  exact ⟨a'.additions, a'.removals, (acceptNewBlock_eq_ok_iff E).mpr
    ⟨hextends', _, hbody', a', rfl, rfl⟩, hadditions, hremovals⟩

/-! ## Applying the block -/

theorem recorded_perm {additions additions' : List Coin}
    (hperm : additions.Perm additions')
    (unspentFor : Bytes32 → Option Unspent) :
    recorded E additions unspentFor = recorded E additions' unspentFor := by
  funext name
  unfold recorded
  have hiff := (hperm.map (Coin.name E)).mem_iff (a := name)
  simp only [hiff]

theorem blockRecords_perm {added added' removed removed' : List Bytes32}
    (hadded : added.Perm added') (hremoved : removed.Perm removed')
    (blockIndex : ℕ) (unspentFor : Bytes32 → Option Unspent) :
    blockRecords blockIndex added removed unspentFor =
      blockRecords blockIndex added' removed' unspentFor := by
  funext name
  unfold blockRecords
  simp only [hadded.mem_iff, hremoved.mem_iff]

/-- A successful call leaves the database with the whole block applied. -/
theorem applyDeltas_ok_iff {heap heap' : Heap} {db : Ref}
    (hcls : (heap db).cls = .ramDB) {blockIndex : ℕ} {additions : List Coin}
    {removals : List Bytes32} :
    (applyDeltas E blockIndex additions removals db db).run heap =
        (.ok (), heap') ↔
      removals.all (recorded E additions (heap db).unspentForCoinName) = true ∧
        heap' = heap.put db
          ((heap db).applyBlock E blockIndex additions removals) := by
  rw [applyDeltas_run E (by rw [hcls]; rfl) (by rw [hcls]; rfl)]
  by_cases hall : removals.all
      (recorded E additions (heap db).unspentForCoinName) = true
  · have happlied : appliedHeap E heap db db blockIndex additions removals =
        _ := appliedHeap_of_recorded E hall
    unfold appliedHeap at happlied
    rw [if_pos hall, happlied]
    simp only [hall, true_and, Prod.mk.injEq, eq_comm]
  · rw [if_neg hall]
    simp only [Prod.mk.injEq, reduceCtorEq, false_and, hall]

theorem applyDeltas_of_perm {heap : Heap} {db : Ref}
    (hcls : (heap db).cls = .ramDB) {blockIndex : ℕ}
    {additions additions' : List Coin} {removals removals' : List Bytes32}
    (hnodup : (additions.map (Coin.name E)).Nodup)
    (hadditions : additions.Perm additions')
    (hremovals : removals.Perm removals') {heap₁ : Heap}
    (h : (applyDeltas E blockIndex additions removals db db).run heap =
      (.ok (), heap₁)) :
    ∃ heap₂, (applyDeltas E blockIndex additions' removals' db db).run heap =
        (.ok (), heap₂) ∧
      (heap₁ db).unspentForCoinName = (heap₂ db).unspentForCoinName ∧
      (heap₁ db).hashPreimage = (heap₂ db).hashPreimage ∧
      ∀ other, other ≠ db → heap₁ other = heap₂ other := by
  obtain ⟨hall, rfl⟩ := (applyDeltas_ok_iff hcls).mp h
  refine ⟨_, (applyDeltas_ok_iff hcls).mpr ⟨?_, rfl⟩, ?_, ?_, ?_⟩
  · rw [← recorded_perm hadditions, List.all_eq_true]
    intro name hname
    exact List.all_eq_true.mp hall name (hremovals.mem_iff.mpr hname)
  · rw [Heap.put_self, Heap.put_self,
      Database.applyBlock_unspentForCoinName,
      Database.applyBlock_unspentForCoinName]
    exact blockRecords_perm (hadditions.map _) hremovals _ _
  · rw [Heap.put_self, Heap.put_self, Database.applyBlock_hashPreimage,
      Database.applyBlock_hashPreimage, ramStorageOf_perm hadditions hnodup]
  · intro other hother
    rw [Heap.put_of_ne _ _ hother, Heap.put_of_ne _ _ hother]

variable (E)

/-- Permuting the quoted entries of a body changes neither whether the block
is accepted nor what it leaves in the database. -/
theorem acceptNewBlock_order_irrelevant
    (hquote : ∀ x args, E.runProgram (.ofList [E.quoteKeyword, x]) args = .ok x)
    (hverify : E.VerifyOrderFree) (chainView : ChainView)
    (header header' : Header) (hashPreimage : Bytes32 → Option Bytes)
    (unspentForCoinName : Bytes32 → Option Unspent)
    (coinbaseReward timestamp : ℤ) (body : Body) (entries entries' : List SExp)
    (hperm : entries.Perm entries')
    (hextends : header.previousHash.hash = chainView.tipHash.hash)
    (hextends' : header'.previousHash.hash = chainView.tipHash.hash)
    (hbody : header.bodyHash.obj E (Body.parse E) hashPreimage =
      .ok (some { body with solutionProgram := quoted E entries }))
    (hbody' : header'.bodyHash.obj E (Body.parse E) hashPreimage =
      .ok (some { body with solutionProgram := quoted E entries' })) :
    ((∃ deltas, acceptNewBlock E chainView header hashPreimage
        unspentForCoinName coinbaseReward timestamp = .ok deltas) ↔
      ∃ deltas, acceptNewBlock E chainView header' hashPreimage
        unspentForCoinName coinbaseReward timestamp = .ok deltas) ∧
    ∀ additions removals additions' removals',
      acceptNewBlock E chainView header hashPreimage unspentForCoinName
          coinbaseReward timestamp = .ok (additions, removals) →
      acceptNewBlock E chainView header' hashPreimage unspentForCoinName
          coinbaseReward timestamp = .ok (additions', removals') →
      additions.Perm additions' ∧ removals.Perm removals' ∧
      ∀ (blockIndex : ℕ) (heap heap₁ : Heap) (db : Ref),
        (heap db).cls = .ramDB →
        (applyDeltas E blockIndex additions removals db db).run heap =
          (.ok (), heap₁) →
        ∃ heap₂, (applyDeltas E blockIndex additions' removals' db db).run
            heap = (.ok (), heap₂) ∧
          (heap₁ db).unspentForCoinName = (heap₂ db).unspentForCoinName ∧
          (heap₁ db).hashPreimage = (heap₂ db).hashPreimage ∧
          ∀ other, other ≠ db → heap₁ other = heap₂ other := by
  refine ⟨⟨?_, ?_⟩, ?_⟩
  · rintro ⟨⟨additions, removals⟩, h⟩
    obtain ⟨additions', removals', h', -⟩ := acceptNewBlock_of_perm hquote
      hverify hperm hextends' hbody hbody' h
    exact ⟨_, h'⟩
  · rintro ⟨⟨additions, removals⟩, h⟩
    obtain ⟨additions', removals', h', -⟩ := acceptNewBlock_of_perm hquote
      hverify hperm.symm hextends hbody' hbody h
    exact ⟨_, h'⟩
  · intro additions removals additions' removals' h h'
    obtain ⟨_, _, h₀, hadditions, hremovals⟩ := acceptNewBlock_of_perm hquote
      hverify hperm hextends' hbody hbody' h
    obtain ⟨rfl, rfl⟩ := Prod.mk.inj (Except.ok.inj (h₀.symm.trans h'))
    refine ⟨hadditions, hremovals, ?_⟩
    intro blockIndex heap heap₁ db hcls hrun
    obtain ⟨-, _, -, a, rfl, rfl⟩ := (acceptNewBlock_eq_ok_iff E).mp h
    exact applyDeltas_of_perm hcls a.additions_nodup hadditions hremovals hrun

namespace Reference

theorem environment_verifyOrderFree : environment.VerifyOrderFree :=
  fun _ _ _ _ => rfl

def childEntry : SExp :=
  spend (childCoin.name environment) childConditions

def parentEntry : SExp :=
  spend ((coinbaseCoin parentConditions).name environment) parentConditions

def parentFirstBody : Body :=
  { childFirstBody with
    solutionProgram := quoted environment [parentEntry, childEntry] }

def parentFirstAdditions : List Coin :=
  [coinbaseCoin parentConditions, ⟨indexHash 1, SizedBytes.fill 32 4, 0⟩,
    childCoin, grandchildCoin]

end Reference

open Reference in
theorem acceptNewBlock_order_irrelevant_childFirst :
    childFirstAdditions.Perm parentFirstAdditions ∧
      childFirstRemovals.Perm childFirstRemovals.reverse ∧
      ∀ (blockIndex : ℕ) (heap heap₁ : Heap) (db : Ref),
        (heap db).cls = .ramDB →
        (applyDeltas environment blockIndex childFirstAdditions
          childFirstRemovals db db).run heap = (.ok (), heap₁) →
        ∃ heap₂, (applyDeltas environment blockIndex parentFirstAdditions
            childFirstRemovals.reverse db db).run heap = (.ok (), heap₂) ∧
          (heap₁ db).unspentForCoinName = (heap₂ db).unspentForCoinName ∧
          (heap₁ db).hashPreimage = (heap₂ db).hashPreimage ∧
          ∀ other, other ≠ db → heap₁ other = heap₂ other :=
  (acceptNewBlock_order_irrelevant environment environment_lawful.run_quote
    environment_verifyOrderFree (genesisView 0)
    (header ledgerGenesisHash childFirstBody)
    (header ledgerGenesisHash parentFirstBody) (fun _ => none) (fun _ => none)
    blockReward 0 childFirstBody [childEntry, parentEntry]
    [parentEntry, childEntry] (.swap _ _ _) rfl rfl rfl rfl).2 _ _ _ _
    (Except.toOption_eq_some_iff.mp (by decide +kernel))
    (Except.toOption_eq_some_iff.mp (by decide +kernel))

end LedgerSim
