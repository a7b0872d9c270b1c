import LedgerSim.RememberedChain

/-!
# The blocks on the chain

Every block of the chain has been farmed by the server and accepted in the state
that the requests before it had left, whatever the hash function is.
-/

namespace LedgerSim

variable {E : Environment}

/-- A successful `new_chain_view` has farmed, accepted and applied a block. -/
theorem newChainView_accepted {chainView newView : ChainView}
    {spendBundles : List SpendBundle}
    {coinbasePuzzleHash feesPuzzleHash : Bytes32} {now : ℕ} {db : Ref}
    {heap heap' : Heap} (hviewDb : chainView.unspentDb = db)
    (hcls : (heap db).cls = .ramDB)
    (hrun : (newChainView E chainView spendBundles coinbasePuzzleHash
      feesPuzzleHash db db now).run heap = (.ok newView, heap')) :
    ∃ (f : Farmed E chainView spendBundles coinbasePuzzleHash feesPuzzleHash
        now) (a : f.Accepted (heap db)),
      newView = f.newView ∧ heap' = heap.put db (f.applied a) := by
  cases hfarm : farmForChainView E chainView spendBundles coinbasePuzzleHash
      feesPuzzleHash now with
  | error e =>
      unfold newChainView at hrun
      rw [hfarm, Exec.run_bind_of_error (Exec.run_ofExcept _ _)] at hrun
      simp at hrun
  | ok farmed =>
      obtain ⟨f, -, -, -⟩ := (farmForChainView_eq_ok_iff E).mp hfarm
      rw [newChainView_of_farmed E f hcls] at hrun
      have hstored : ((heap.put db (f.stored (heap db))) db).cls = .ramDB := by
        rw [Heap.put_self]
        exact hcls
      obtain ⟨additions, removals, hvalid, -, hextend, hheap⟩ :=
        (augmentChainView_ok_iff E hstored).mp hrun
      unfold ChainView.validated at hvalid
      rw [hviewDb, Heap.put_self] at hvalid
      obtain ⟨-, body, hbody, a, rfl, rfl⟩ :=
        (acceptNewBlock_eq_ok_iff E).mp hvalid
      obtain rfl : f.body = body := by
        simpa [Farmed.header, farmedHeader] using hbody
      obtain ⟨blob, hblob, hview, -⟩ :=
        (ChainView.extend_eq_ok_iff E).mp hextend
      obtain rfl : blob = f.headerBlob :=
        Except.ok.inj (hblob.symm.trans f.header_bytes)
      refine ⟨f, a, ?_, ?_⟩
      · rw [hview, Farmed.newView, hviewDb]
      · rw [hheap, Heap.put_self, Heap.put_put]
        rfl

theorem AcceptedBody.removalsForBody_eq {tipIndex : ℕ} {body : Body}
    {hashPreimage : Bytes32 → Option Bytes}
    {unspentFor : Bytes32 → Option Unspent} {coinbaseReward timestamp : ℤ}
    (a : AcceptedBody E tipIndex body hashPreimage unspentFor coinbaseReward
      timestamp) : removalsForBody E body = .ok a.removals :=
  Except.bind_eq_ok a.npcList_eq rfl

/-- Further coins may be claimed, if their blobs are covered too. -/
theorem Farmed.Covers.claim {blobs : List Bytes} {claims : List CoinSolution}
    {additions : List Coin} {hashPreimage : Bytes32 → Option Bytes}
    (h : Covers (E := E) blobs claims additions hashPreimage)
    (claim : CoinSolution) :
    Covers (E := E) (claim.coin.bytes E :: blobs) (claim :: claims) additions
      hashPreimage where
  claimed other hother := by
    rcases List.mem_cons.mp hother with rfl | hold
    · exact List.mem_cons_self
    · exact List.mem_cons_of_mem _ (h.claimed other hold)
  added coin hcoin := List.mem_cons_of_mem _ (h.added coin hcoin)
  stored hash blob hblob :=
    (h.stored hash blob hblob).imp_left (List.mem_cons_of_mem _)

namespace LedgerAPI

/-- The state after a block has been mined. -/
def mined (self : LedgerAPI) {coinbasePuzzleHash feesPuzzleHash : Bytes32}
    (f : Farmed E self.chainView self.spendBundles coinbasePuzzleHash
      feesPuzzleHash self.now) (a : f.Accepted self.db) : LedgerAPI :=
  { self with
    chainView := f.newView
    heap := self.heap.put self.storage (f.applied a)
    spendBundles := [] }

theorem mined_db {self : LedgerAPI} {coinbasePuzzleHash feesPuzzleHash : Bytes32}
    (f : Farmed E self.chainView self.spendBundles coinbasePuzzleHash
      feesPuzzleHash self.now) (a : f.Accepted self.db) :
    (self.mined f a).db = f.applied a :=
  Heap.put_self _ _ _

theorem newBlock_mined {self : LedgerAPI} (hself : self.WellFormed E)
    {request : Request} {block : Header × Body}
    (h : block ∈ newBlock E self request) :
    ∃ coinbasePuzzleHash feesPuzzleHash,
      request = .nextBlock coinbasePuzzleHash feesPuzzleHash ∧
      ∃ (f : Farmed E self.chainView self.spendBundles coinbasePuzzleHash
          feesPuzzleHash self.now) (a : f.Accepted self.db),
        block = (f.header, f.body) ∧ step E self request = self.mined f a := by
  have hcases := handle_cases E self request
  unfold newBlock at h
  generalize ((handle E request).run self).1 = response at hcases h
  generalize step E self request = next at hcases ⊢
  cases hcases with
  | @mined coinbasePuzzleHash feesPuzzleHash view heap hattempt =>
      unfold attempt at hattempt
      rw [hself.unspentDb] at hattempt
      obtain ⟨f, a, rfl, rfl⟩ :=
        newChainView_accepted hself.viewDb hself.cls hattempt
      exact ⟨_, _, rfl, f, a, List.mem_singleton.mp h, rfl⟩
  | _ => cases h

/-- A block of the chain in the run. -/
theorem exists_mined {requests : List Request} {block : Header × Body}
    (h : block ∈ blocks E requests) :
    ∃ earlier coinbasePuzzleHash feesPuzzleHash later,
      requests = earlier ++
        .nextBlock coinbasePuzzleHash feesPuzzleHash :: later ∧
      ∃ (f : Farmed E (run E earlier).chainView (run E earlier).spendBundles
          coinbasePuzzleHash feesPuzzleHash (run E earlier).now)
        (a : f.Accepted (run E earlier).db),
        block = (f.header, f.body) ∧
        run E (earlier ++ [.nextBlock coinbasePuzzleHash feesPuzzleHash]) =
          (run E earlier).mined f a := by
  induction requests using List.reverseRecOn with
  | nil => cases h
  | append_singleton requests request ih =>
      rw [blocks_append] at h
      rcases List.mem_append.mp h with hold | hnew
      · obtain ⟨earlier, coinbasePuzzleHash, feesPuzzleHash, later, rfl,
          hmined⟩ := ih hold
        refine ⟨earlier, coinbasePuzzleHash, feesPuzzleHash, later ++ [request],
          ?_, hmined⟩
        rw [List.append_assoc, List.cons_append]
      · obtain ⟨coinbasePuzzleHash, feesPuzzleHash, rfl, f, a, hblock, hstep⟩ :=
          newBlock_mined (run_wellFormed requests) hnew
        refine ⟨requests, coinbasePuzzleHash, feesPuzzleHash, [], rfl, f, a,
          hblock, ?_⟩
        rw [run_append, hstep]

theorem knownBlobs_prefix (earlier later : List Request) :
    knownBlobs E earlier ⊆ knownBlobs E (earlier ++ later) := by
  induction later using List.reverseRecOn with
  | nil =>
      rw [List.append_nil]
      exact List.Subset.refl _
  | append_singleton later request ih =>
      rw [← List.append_assoc]
      exact List.Subset.trans ih (knownBlobs_append _ request)

/-- A block of the run looks at blobs that are known in the end. -/
theorem mined_covers {earlier : List Request}
    {coinbasePuzzleHash feesPuzzleHash : Bytes32}
    (f : Farmed E (run E earlier).chainView (run E earlier).spendBundles
      coinbasePuzzleHash feesPuzzleHash (run E earlier).now)
    (a : f.Accepted (run E earlier).db)
    (hmined : run E (earlier ++ [.nextBlock coinbasePuzzleHash
      feesPuzzleHash]) = (run E earlier).mined f a) (later : List Request) :
    Farmed.Covers (E := E)
      (knownBlobs E
        (earlier ++ .nextBlock coinbasePuzzleHash feesPuzzleHash :: later))
      f.claims a.additions (f.stored (run E earlier).db).hashPreimage := by
  rw [List.append_cons earlier]
  have hknown := knownBlobs_prefix (E := E)
    (earlier ++ [.nextBlock coinbasePuzzleHash feesPuzzleHash]) later
  apply f.covers (run_wellFormed earlier).keyed a
  · intro claim hclaim
    exact hknown (knownBlobs_append earlier _ (pending_known hclaim))
  · intro blob hblob
    apply hknown
    apply List.mem_append_left
    rw [hmined, mined_db]
    exact hblob

end LedgerAPI

end LedgerSim
