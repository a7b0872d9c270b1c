import LedgerSim.LedgerStep

/-!
# Runs of the ledger server

The server is a speculative ledger: a pushed bundle is a trial of the block
that would contain it, a mined block is committed, and a refused request does
nothing.  The names of coins are the ledger's items, a coin's parent is its
`parent_coin_info`, and the reward coins of a block descend from its index.
-/

namespace LedgerSim

open SpeculativeLedger (Block State Inv Admissible Grounded)

variable (E : Environment)

/-! ## Names and parents -/

section Names

variable (blobs : List Bytes)

def knownNames : Set Bytes32 :=
  {name | ∃ coin : Coin, coin.bytes E ∈ blobs ∧ coin.name E = name}

def parentName (name : Bytes32) : Bytes32 :=
  (knownCoin E blobs name).parentCoinInfo

variable {E blobs}

theorem mem_knownNames {coin : Coin} (h : coin.bytes E ∈ blobs) :
    coin.name E ∈ knownNames E blobs :=
  ⟨coin, h, rfl⟩

theorem parentName_name (hE : E.Lawful) (hfree : CollisionFree E blobs)
    {coin : Coin} (h : coin.bytes E ∈ blobs) :
    parentName E blobs (coin.name E) = coin.parentCoinInfo := by
  rw [parentName, hfree.knownCoin_name hE h]

theorem HashAssumptions.grounded (hE : E.Lawful) {tipIndex : ℕ}
    (h : HashAssumptions E blobs tipIndex) :
    Grounded (parentName E blobs) (knownNames E blobs) := by
  refine Subrelation.wf ?_
    (InvImage.wf (knownCoin E blobs) (h.acyclic.wellFounded hE))
  rintro _ _ ⟨⟨y, hy, rfl⟩, ⟨x, hx, rfl⟩, hparent⟩
  rw [parentName_name hE h.collisionFree hy] at hparent
  change ParentOf E blobs (knownCoin E blobs _) (knownCoin E blobs _)
  rw [h.collisionFree.knownCoin_name hE hx,
    h.collisionFree.knownCoin_name hE hy]
  exact ⟨hx, hy, hparent⟩

theorem HashAssumptions.indexHash_notMem {tipIndex : ℕ}
    (h : HashAssumptions E blobs tipIndex) {k : ℕ} (hk : k ≤ tipIndex + 1) :
    indexHash k ∉ knownNames E blobs := by
  rintro ⟨coin, hcoin, hname⟩
  exact h.noIndexHash _ hcoin k hk hname

end Names

/-! ## Blocks -/

/-- The names in a block with the given reward coins and spends. -/
def BlockOf (rewards : List Coin) (npcs : Except Exn (List Npc))
    (b : Block Bytes32) : Prop :=
  ∃ npcList outputs, npcs = .ok npcList ∧
    createdOutputs E npcList = .ok outputs ∧
    b = ⟨rewards.map (Coin.name E), outputs.map (Coin.name E),
      npcList.map Npc.coinName⟩

theorem createdOutputs_append {npcList npcList' : List Npc}
    {outputs : List Coin}
    (h : createdOutputs E (npcList ++ npcList') = .ok outputs) :
    ∃ first rest, createdOutputs E npcList = .ok first ∧
      outputs = first ++ rest := by
  obtain ⟨created, hcreated, h⟩ := Except.bind_eq_ok_iff.mp h
  obtain rfl := Except.ok.inj h
  obtain ⟨first, rest, hfirst, -, rfl⟩ :=
    Except.mapM_append_eq_ok_iff.mp hcreated
  exact ⟨first.flatten, rest.flatten,
    Except.bind_eq_ok hfirst rfl, List.flatten_append⟩

theorem BlockOf.subset {claims more : List CoinSolution}
    {rewards : List Coin} {b b' : Block Bytes32}
    (h : BlockOf E [] (npcsOf E claims) b)
    (h' : BlockOf E rewards (npcsOf E (claims ++ more)) b') :
    b.created ⊆ b'.created ∧ b.spent ⊆ b'.spent := by
  obtain ⟨npcList, outputs, hnpcs, houtputs, rfl⟩ := h
  obtain ⟨npcList', outputs', hnpcs', houtputs', rfl⟩ := h'
  obtain ⟨first, rest, hfirst, -, rfl⟩ :=
    Except.mapM_append_eq_ok_iff.mp hnpcs'
  obtain rfl := Except.ok.inj (hnpcs.symm.trans hfirst)
  obtain ⟨created, others, hcreated, rfl⟩ := createdOutputs_append E houtputs'
  obtain rfl := Except.ok.inj (houtputs.symm.trans hcreated)
  constructor
  · intro name hname
    simp only [Block.created, List.map_nil, List.nil_append] at hname
    simp only [Block.created, List.map_append, List.mem_append]
    exact .inr (.inl hname)
  · intro name hname
    simp only [List.map_append, List.mem_append]
    exact .inl hname

section Candidate

variable {E} {chainView : ChainView} {spendBundles : List SpendBundle}
  {coinbasePuzzleHash feesPuzzleHash : Bytes32} {now : ℕ}
  (f : Farmed E chainView spendBundles coinbasePuzzleHash feesPuzzleHash now)
  {db : Database} (a : f.Accepted db)

/-- The names in a farmed block. -/
def Farmed.candidate : Block Bytes32 :=
  ⟨[f.body.coinbaseCoin, f.body.feesCoin].map (Coin.name E),
    a.outputs.map (Coin.name E), a.removals⟩

theorem Farmed.candidate_created :
    (f.candidate a).created = a.additions.map (Coin.name E) := by
  simp [Farmed.candidate, Block.created, AcceptedBody.additions]

theorem Farmed.candidate_blockOf :
    BlockOf E [f.body.coinbaseCoin, f.body.feesCoin]
      (namePuzzleConditionsList E f.body.solutionProgram) (f.candidate a) :=
  ⟨a.npcList, a.outputs, a.npcList_eq, a.outputs_eq, rfl⟩

theorem Farmed.exists_claim_of_spent (hE : E.Lawful) {name : Bytes32}
    (hname : name ∈ (f.candidate a).spent) :
    ∃ claim ∈ f.claims, claim.coin.name E = name := by
  change name ∈ a.removals at hname
  rw [f.removals_eq hE a] at hname
  exact List.mem_map.mp hname

theorem Farmed.applied_recordsOf :
    recordsOf (f.applied a).unspentForCoinName =
      SpeculativeLedger.applyBlock (chainView.tipIndex + 1)
        (f.candidate a).created (f.candidate a).spent
        (recordsOf db.unspentForCoinName) := by
  rw [Farmed.applied_unspentForCoinName, recordsOf_blockRecords,
    Farmed.candidate_created]
  rfl

end Candidate

/-! ## The simulation -/

/-- A server, the blocks of its chain, and the state of a speculative ledger
that stands for them. -/
structure Simulates (blobs : List Bytes) (server : LedgerAPI)
    (chain : List (Header × Body)) (s : State Bytes32) : Prop where
  tip : s.tip = server.chainView.tipIndex
  records : s.records = recordsOf server.db.unspentForCoinName
  inv : Inv (parentName E blobs) indexHash (knownNames E blobs) s
  pending : BlockOf E [] (npcsOf E server.claims) (s.blocks (s.tip + 1))
  future : ∀ k, s.tip + 1 < k → s.blocks k = Block.empty
  chain : List.Forall₂
    (fun block b => BlockOf E [block.2.coinbaseCoin, block.2.feesCoin]
      (namePuzzleConditionsList E block.2.solutionProgram) b)
    chain ((List.range s.tip).map fun k => s.blocks (k + 1))

theorem blockOf_nil : BlockOf E [] (npcsOf E []) Block.empty :=
  ⟨[], [], rfl, rfl, rfl⟩

theorem initial_simulates (blobs : List Bytes) :
    Simulates E blobs LedgerAPI.initial [] State.initial where
  tip := rfl
  records := rfl
  inv := SpeculativeLedger.inv_initial _ _ _
  pending := blockOf_nil E
  future _ _ := rfl
  chain := .nil

section Step

variable {E} {blobs : List Bytes} {tipIndex : ℕ} {server : LedgerAPI}
  {chain : List (Header × Body)} {s : State Bytes32}
  {spendBundles : List SpendBundle}
  {coinbasePuzzleHash feesPuzzleHash : Bytes32}

theorem Simulates.congr (h : Simulates E blobs server chain s)
    {server' : LedgerAPI} (hview : server'.chainView = server.chainView)
    (hrecords : server'.db.unspentForCoinName = server.db.unspentForCoinName)
    (hbundles : server'.spendBundles = server.spendBundles) :
    Simulates E blobs server' chain s where
  tip := by rw [hview, h.tip]
  records := by rw [hrecords, h.records]
  inv := h.inv
  pending := by
    unfold LedgerAPI.claims
    rw [hbundles]
    exact h.pending
  future := h.future
  chain := h.chain

/-- A farmed block that is accepted is admissible. -/
theorem Simulates.admissible (hE : E.Lawful)
    (h : Simulates E blobs server chain s) (hserver : server.WellFormed E)
    (hhash : HashAssumptions E blobs tipIndex)
    (htip : server.chainView.tipIndex ≤ tipIndex)
    (f : Farmed E server.chainView spendBundles coinbasePuzzleHash
      feesPuzzleHash server.now) (a : f.Accepted server.db)
    (hpending : server.spendBundles <+: spendBundles)
    (hclaims : ∀ claim ∈ f.claims, claim.coin.bytes E ∈ blobs)
    (hstored : ∀ blob ∈ (f.applied a).stored, blob ∈ blobs) :
    Admissible (parentName E blobs) indexHash (knownNames E blobs) s
      (f.candidate a) := by
  have hcovers := f.covers hserver.keyed a hclaims hstored
  have hfree := hhash.collisionFree
  have hresolved := f.resolved_claims hE hfree a hcovers
  have hindex : s.tip + 1 < 256 ^ 32 := h.tip ▸ f.index_lt
  have hreward : ∀ coin ∈ [f.body.coinbaseCoin, f.body.feesCoin],
      coin ∈ a.additions ∧ coin.parentCoinInfo = indexHash (s.tip + 1) := by
    intro coin hcoin
    rw [h.tip]
    refine ⟨mem_additions_iff.mpr (.inl hcoin), ?_⟩
    rcases List.mem_pair.mp hcoin with rfl | rfl <;> rfl
  have hsubset : (s.blocks (s.tip + 1)).created ⊆ (f.candidate a).created ∧
      (s.blocks (s.tip + 1)).spent ⊆ (f.candidate a).spent := by
    obtain ⟨more, rfl⟩ := hpending
    have hcandidate := f.candidate_blockOf a
    rw [f.npcsOf_claims hE, Farmed.claims, List.flatMap_append] at hcandidate
    exact h.pending.subset E hcandidate
  constructor
  case root_ne =>
    intro k hk heq
    have := indexHash_inj (by omega) hindex heq
    omega
  case root_notMem =>
    intro k hk
    exact hhash.indexHash_notMem (by rw [h.tip] at hk; omega)
  case created_known =>
    intro name hname
    rw [f.candidate_created a] at hname
    obtain ⟨coin, hcoin, rfl⟩ := List.mem_map.mp hname
    exact mem_knownNames (hcovers.added coin hcoin)
  case spent_known =>
    intro name hname
    obtain ⟨claim, hclaim, rfl⟩ := f.exists_claim_of_spent a hE hname
    exact mem_knownNames (hclaims claim hclaim)
  case reward_parent =>
    intro name hname
    obtain ⟨coin, hcoin, rfl⟩ := List.mem_map.mp hname
    obtain ⟨hadded, hparent⟩ := hreward coin hcoin
    rw [parentName_name hE hfree (hcovers.added coin hadded), hparent]
  case output_parent =>
    intro name hname
    obtain ⟨coin, hcoin, rfl⟩ := List.mem_map.mp hname
    have hadded : coin ∈ a.additions := mem_additions_iff.mpr (.inr hcoin)
    rw [parentName_name hE hfree (hcovers.added coin hadded)]
    obtain ⟨npc, hnpc, condition, -, hcreated⟩ :=
      (mem_outputs_iff E a.outputs_eq).mp hcoin
    obtain ⟨_, _, _, -, -, rfl⟩ := (createdOutput_eq_ok_iff E).mp hcreated
    exact List.mem_map_of_mem hnpc
  case created_nodup =>
    rw [f.candidate_created a]
    exact a.additions_nodup
  case spent_nodup => exact a.removals_nodup
  case spendable =>
    intro name hname
    obtain ⟨claim, hclaim, rfl⟩ := f.exists_claim_of_spent a hE hname
    obtain ⟨cpc, hcpc, hcoin, -⟩ := hresolved.exists_of_mem_left hclaim
    rw [← hcoin, f.candidate_created a]
    rcases a.spendable cpc hcpc with hadded | ⟨unspent, hrecord, hspendable⟩
    · exact .inl (List.mem_map_of_mem hadded)
    · refine .inr ⟨unspent.entry, ?_, ?_⟩
      · rw [h.records, recordsOf, hrecord]
        rfl
      · rw [h.tip]
        exact hspendable
  case pending_created => exact hsubset.1
  case pending_spent => exact hsubset.2

/-- A pushed bundle is a trial. -/
theorem Simulates.pushed (hE : E.Lawful) (h : Simulates E blobs server chain s)
    (hground : Grounded (parentName E blobs) (knownNames E blobs))
    {tx : SpendBundle}
    (f : Farmed E server.chainView (server.spendBundles ++ [tx])
      dryRunCoinbasePuzzleHash dryRunFeesPuzzleHash server.now)
    (a : f.Accepted server.db)
    (hadmissible : Admissible (parentName E blobs) indexHash
      (knownNames E blobs) s (f.candidate a)) :
    Simulates E blobs
      { server with
        heap := server.heap.put server.storage (f.applied a)
        spendBundles := server.spendBundles ++ [tx] }
      chain (s.trial (f.candidate a)) where
  tip := h.tip
  records := by
    rw [LedgerAPI.db_put, f.applied_recordsOf a, ← h.records, ← h.tip]
    rfl
  inv := h.inv.trial hadmissible hground
  pending := by
    have hcandidate := f.candidate_blockOf a
    rw [f.npcsOf_claims hE] at hcandidate
    obtain ⟨npcList, outputs, hnpcs, houtputs, heq⟩ := hcandidate
    refine ⟨npcList, outputs, hnpcs, houtputs, ?_⟩
    rw [State.trial_tip, State.trial_blocks_self, heq]
    rfl
  future k hk := by
    rw [State.trial_tip] at hk
    rw [State.trial_blocks_of_ne _ _ (Nat.ne_of_gt hk)]
    exact h.future k hk
  chain := (s.write_map_blocks (f.candidate a) [] _).symm ▸ h.chain

/-- A mined block is committed. -/
theorem Simulates.mined (h : Simulates E blobs server chain s)
    (hground : Grounded (parentName E blobs) (knownNames E blobs))
    (f : Farmed E server.chainView server.spendBundles coinbasePuzzleHash
      feesPuzzleHash server.now)
    (a : f.Accepted server.db)
    (hadmissible : Admissible (parentName E blobs) indexHash
      (knownNames E blobs) s (f.candidate a)) :
    Simulates E blobs
      { server with
        chainView := f.newView
        heap := server.heap.put server.storage (f.applied a)
        spendBundles := [] }
      (chain ++ [(f.header, f.body)]) (s.commit (f.candidate a)) where
  tip := congrArg Nat.succ h.tip
  records := by
    rw [LedgerAPI.db_put, f.applied_recordsOf a, ← h.records, ← h.tip]
    rfl
  inv := h.inv.commit hadmissible hground
  pending := by
    change BlockOf E [] (npcsOf E [])
      ((s.commit (f.candidate a)).blocks (s.tip + 1 + 1))
    rw [State.commit_blocks_of_ne _ _ (Nat.succ_ne_self _),
      h.future _ (Nat.lt_succ_self _)]
    exact blockOf_nil E
  future k hk := by
    rw [State.commit_tip] at hk
    have hlt : s.tip + 1 < k := (Nat.lt_succ_self _).trans hk
    rw [State.commit_blocks_of_ne _ _ hlt.ne']
    exact h.future k hlt
  chain := by
    change List.Forall₂ _ _ ((List.range (s.tip + 1)).map _)
    rw [State.commit_map_blocks]
    exact List.rel_append h.chain (.cons (f.candidate_blockOf a) .nil)

end Step

/-- A request as a step of the speculative ledger. -/
inductive SpeculativeStep (blobs : List Bytes) (server : LedgerAPI)
    (s : State Bytes32) :
    Request → Except Exn Response → LedgerAPI → State Bytes32 → Prop
  | refused {request : Request} (e : Exn) (added : List Bytes) :
      SpeculativeStep blobs server s request (.error e)
        { server with
          heap := server.heap.put server.storage
            (server.db.addPreimages E added) } s
  | skipped (ms : Bytes) :
      SpeculativeStep blobs server s (.skipMilliseconds ms)
        (.ok (.now (server.now + BigEndian.toNat ms)))
        { server with now := server.now + BigEndian.toNat ms } s
  | pushed {tx : SpendBundle}
      (f : Farmed E server.chainView (server.spendBundles ++ [tx])
        dryRunCoinbasePuzzleHash dryRunFeesPuzzleHash server.now)
      (a : f.Accepted server.db)
      (covers : Farmed.Covers (E := E) blobs f.claims a.additions
        (f.stored server.db).hashPreimage)
      (admissible : Admissible (parentName E blobs) indexHash
        (knownNames E blobs) s (f.candidate a)) :
      SpeculativeStep blobs server s (.pushTx tx) (.ok (.accepted tx))
        { server with
          heap := server.heap.put server.storage (f.applied a)
          spendBundles := server.spendBundles ++ [tx] }
        (s.trial (f.candidate a))
  | mined {coinbasePuzzleHash feesPuzzleHash : Bytes32}
      (f : Farmed E server.chainView server.spendBundles coinbasePuzzleHash
        feesPuzzleHash server.now)
      (a : f.Accepted server.db)
      (covers : Farmed.Covers (E := E) blobs f.claims a.additions
        (f.stored server.db).hashPreimage)
      (admissible : Admissible (parentName E blobs) indexHash
        (knownNames E blobs) s (f.candidate a)) :
      SpeculativeStep blobs server s
        (.nextBlock coinbasePuzzleHash feesPuzzleHash)
        (.ok (.block f.header (some f.body)))
        { server with
          chainView := f.newView
          heap := server.heap.put server.storage (f.applied a)
          spendBundles := [] }
        (s.commit (f.candidate a))

section Run

variable {E} {blobs : List Bytes} {tipIndex : ℕ}

theorem Simulates.step (hE : E.Lawful) {server server' : LedgerAPI}
    {chain : List (Header × Body)} {s s' : State Bytes32} {request : Request}
    {response : Except Exn Response} (h : Simulates E blobs server chain s)
    (hground : Grounded (parentName E blobs) (knownNames E blobs))
    (hstep : SpeculativeStep E blobs server s request response server' s') :
    Simulates E blobs server' (chain ++ Response.newBlock response) s' := by
  have hnone : chain ++ [] = chain := List.append_nil chain
  cases hstep with
  | refused e added =>
      change Simulates E blobs _ (chain ++ []) s
      rw [hnone]
      exact h.congr rfl (by rw [LedgerAPI.db_put,
        Database.addPreimages_unspentForCoinName]) rfl
  | skipped ms =>
      change Simulates E blobs _ (chain ++ []) s
      rw [hnone]
      exact h.congr rfl rfl rfl
  | pushed f a _ hadmissible =>
      change Simulates E blobs _ (chain ++ []) _
      rw [hnone]
      exact h.pushed hE hground f a hadmissible
  | mined f a _ hadmissible => exact h.mined hground f a hadmissible

namespace LedgerAPI

theorem blocks_append (requests : List Request) (request : Request) :
    blocks E (requests ++ [request]) =
      blocks E requests ++ newBlock E (run E requests) request := by
  have hfrom : ∀ server : LedgerAPI,
      blocksFrom E server (requests ++ [request]) =
        blocksFrom E server requests ++
          newBlock E (requests.foldl (step E) server) request := by
    induction requests with
    | nil => exact fun server => List.append_nil _
    | cons first rest ih =>
        intro server
        simp only [List.cons_append, blocksFrom, List.foldl_cons, ih,
          List.append_assoc]
  exact hfrom initial

/-- The outcome of a request, seen by a ledger that simulates the run so
far. -/
theorem exists_speculativeStep (hE : E.Lawful)
    (hhash : HashAssumptions E blobs tipIndex) (requests : List Request)
    (request : Request)
    (hknown : knownBlobs E (requests ++ [request]) ⊆ blobs)
    (htip : (run E requests).chainView.tipIndex ≤ tipIndex)
    {s : State Bytes32}
    (h : Simulates E blobs (run E requests) (blocks E requests) s) :
    ∃ s', SpeculativeStep E blobs (run E requests) s request
      ((handle E request).run (run E requests)).1
      (run E (requests ++ [request])) s' := by
  have houtcome := run_outcome hE requests request
    (hhash.collisionFree.mono hknown)
    (hhash.noIndexHash.mono hknown (Nat.zero_le _))
  have hserver := run_wellFormed (E := E) requests
  have hstored : ∀ blob ∈ (run E (requests ++ [request])).db.stored,
      blob ∈ blobs :=
    fun blob hblob => hknown (List.mem_append_left _ hblob)
  have hpending : ∀ claim ∈ (run E requests).claims,
      claim.coin.bytes E ∈ blobs :=
    fun claim hclaim =>
      hknown (knownBlobs_append requests request (pending_known hclaim))
  have hclaimed : ∀ blob ∈ claimedBlobs E request, blob ∈ blobs := by
    intro blob hblob
    refine hknown (List.mem_append_right _ ?_)
    rw [List.flatMap_append, List.flatMap_singleton]
    exact List.mem_append_right _ hblob
  rw [← run_append] at houtcome
  generalize run E (requests ++ [request]) = server' at houtcome hstored ⊢
  generalize ((handle E request).run (run E requests)).1 = response
    at houtcome ⊢
  cases houtcome with
  | refused e added => exact ⟨s, .refused e added⟩
  | skipped ms => exact ⟨s, .skipped ms⟩
  | pushed f a =>
      rw [db_put] at hstored
      have hclaims : ∀ claim ∈ f.claims, claim.coin.bytes E ∈ blobs := by
        intro claim hclaim
        rw [Farmed.claims, List.flatMap_append, List.flatMap_singleton,
          List.mem_append] at hclaim
        rcases hclaim with hold | hnew
        · exact hpending claim hold
        · exact hclaimed _ (List.mem_map.mpr ⟨claim, hnew, rfl⟩)
      exact ⟨_, .pushed f a (f.covers hserver.keyed a hclaims hstored)
        (h.admissible hE hserver hhash htip f a (List.prefix_append _ _)
          hclaims hstored)⟩
  | mined f a =>
      rw [db_put] at hstored
      exact ⟨_, .mined f a (f.covers hserver.keyed a hpending hstored)
        (h.admissible hE hserver hhash htip f a (List.prefix_refl _) hpending
          hstored)⟩

/-- Induction over runs, together with the ledger that simulates them. -/
theorem run_induction (hE : E.Lawful)
    (hhash : HashAssumptions E blobs tipIndex)
    (P : List Request → State Bytes32 → Prop) (hnil : P [] State.initial)
    (hstep : ∀ requests request server' response s s',
      Simulates E blobs (run E requests) (blocks E requests) s →
      P requests s →
      run E (requests ++ [request]) = server' →
      ((handle E request).run (run E requests)).1 = response →
      SpeculativeStep E blobs (run E requests) s request response server' s' →
      P (requests ++ [request]) s')
    (requests : List Request) (hknown : knownBlobs E requests ⊆ blobs)
    (htip : (run E requests).chainView.tipIndex ≤ tipIndex) :
    ∃ s, Simulates E blobs (run E requests) (blocks E requests) s ∧
      P requests s := by
  induction requests using List.reverseRecOn with
  | nil => exact ⟨State.initial, initial_simulates E blobs, hnil⟩
  | append_singleton requests request ih =>
      have htip' : (run E requests).chainView.tipIndex ≤ tipIndex :=
        (tipIndex_append requests request).trans htip
      obtain ⟨s, hs, hP⟩ := ih
        (fun blob hblob => hknown (knownBlobs_append requests request hblob))
        htip'
      obtain ⟨s', hs'⟩ :=
        exists_speculativeStep hE hhash requests request hknown htip' hs
      refine ⟨s', ?_, hstep requests request _ _ s s' hs hP rfl rfl hs'⟩
      rw [blocks_append]
      exact hs.step hE (hhash.grounded hE) hs'

theorem exists_simulates (hE : E.Lawful) (requests : List Request)
    (hhash : HashAssumptions E (knownBlobs E requests)
      (run E requests).chainView.tipIndex) :
    ∃ s, Simulates E (knownBlobs E requests) (run E requests)
      (blocks E requests) s := by
  obtain ⟨s, hs, -⟩ := run_induction hE hhash (fun _ _ => True) trivial
    (fun _ _ _ _ _ _ _ _ _ _ _ => trivial) requests (List.Subset.refl _)
    le_rfl
  exact ⟨s, hs⟩

end LedgerAPI

end Run

end LedgerSim
