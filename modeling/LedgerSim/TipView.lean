import LedgerSim.ChainHistory
import Mathlib.Data.List.Infix

/-!
# The records read at the tip

Read at the tip, the unspent database is the replay of the chain, as long as
each mined block creates the reward coins of the dry runs before it.  The
reward coins of other dry runs are never taken back: once the tip has passed
their index they are records of coins that no block has created.
-/

namespace LedgerSim

open SpeculativeLedger (State Block Faithful viewAt replay)

variable (E : Environment)

/-! ## The replay of a chain -/

/-- The records that blocks leave in an empty database, from the names that
they add and remove. -/
def replayRecords (names : List (List Bytes32 × List Bytes32)) :
    Bytes32 → Option Unspent :=
  (names.zipIdx 1).foldl
    (fun unspentFor (block, index) =>
      blockRecords index block.1 block.2 unspentFor)
    fun _ => none

def chainRecords (chain : List (Header × Body)) :
    Except Exn (Bytes32 → Option Unspent) := do
  let additions ← chainAdditions E chain
  let removals ← chainRemovals E chain
  .ok (replayRecords ((additions.map (List.map (Coin.name E))).zip removals))

def Unspent.atTip (tipIndex : ℕ) (unspent : Unspent) : Option Unspent :=
  if tipIndex < unspent.confirmedBlockIndex then none
  else some ⟨unspent.confirmedBlockIndex,
    if tipIndex < unspent.spentBlockIndex then 0
    else unspent.spentBlockIndex⟩

def LedgerAPI.unspentAtTip (self : LedgerAPI) (name : Bytes32) :
    Option Unspent :=
  (self.db.unspentForCoinName name).bind
    (Unspent.atTip self.chainView.tipIndex)

theorem recordsOf_inj {unspentFor unspentFor' : Bytes32 → Option Unspent}
    (h : recordsOf unspentFor = recordsOf unspentFor') :
    unspentFor = unspentFor' := by
  funext name
  refine Option.map_injective ?_ (congrFun h name)
  rintro ⟨confirmed, spent⟩ ⟨confirmed', spent'⟩ heq
  simpa [Unspent.entry] using heq

theorem recordsOf_unspentAtTip (server : LedgerAPI) :
    recordsOf server.unspentAtTip =
      viewAt server.chainView.tipIndex
        (recordsOf server.db.unspentForCoinName) := by
  funext name
  simp only [recordsOf, LedgerAPI.unspentAtTip, viewAt]
  cases server.db.unspentForCoinName name with
  | none => rfl
  | some unspent =>
      simp only [Option.bind_some, Option.map_some, Unspent.atTip,
        Unspent.entry]
      split_ifs <;> rfl

theorem recordsOf_replayRecords (blocks : ℕ → Block Bytes32) (tip : ℕ) :
    recordsOf (replayRecords ((List.range tip).map fun k =>
        ((blocks (k + 1)).created, (blocks (k + 1)).spent))) =
      replay blocks tip := by
  induction tip with
  | zero => rfl
  | succ tip ih =>
      unfold replayRecords at ih ⊢
      rw [List.range_succ, List.map_append, List.zipIdx_append,
        List.foldl_append]
      simp only [List.map_singleton, List.zipIdx_singleton, List.foldl_cons,
        List.foldl_nil, List.length_map, List.length_range]
      rw [recordsOf_blockRecords, ih, Nat.add_comm 1 tip]
      rfl

theorem Simulates.chainRecords {blobs : List Bytes} {server : LedgerAPI}
    {chain : List (Header × Body)} {s : State Bytes32}
    (h : Simulates E blobs server chain s) :
    ∃ records, chainRecords E chain = .ok records ∧
      recordsOf records = replay s.blocks s.tip := by
  obtain ⟨additions, hadditions, hcreated⟩ := h.chainAdditions
  refine ⟨_, Except.bind_eq_ok hadditions
    (Except.bind_eq_ok h.chainRemovals rfl), ?_⟩
  rw [hcreated, List.zip_map']
  exact recordsOf_replayRecords s.blocks s.tip

/-! ## Dry runs -/

/-- The block creates the reward coins of every dry run for the pending
bundles. -/
def KeepsDryRunRewards (server : LedgerAPI)
    (coinbasePuzzleHash feesPuzzleHash : Bytes32) : Prop :=
  ∀ pending ∈ server.spendBundles.inits, pending ≠ [] →
    ∀ coin ∈ rewardCoins E server.chainView.tipIndex
        (pending.flatMap SpendBundle.coinSolutions) dryRunCoinbasePuzzleHash
        dryRunFeesPuzzleHash,
      coin ∈ rewardCoins E server.chainView.tipIndex server.claims
        coinbasePuzzleHash feesPuzzleHash

instance (server : LedgerAPI) (coinbasePuzzleHash feesPuzzleHash : Bytes32) :
    Decidable (KeepsDryRunRewards E server coinbasePuzzleHash
      feesPuzzleHash) :=
  inferInstanceAs (Decidable (∀ pending ∈ _, pending ≠ [] →
    ∀ coin ∈ rewardCoins E _ _ _ _, coin ∈ rewardCoins E _ _ _ _))

/-- An accepted `do_next_block` keeps the rewards of the dry runs. -/
def KeepsWhenAccepted (server : LedgerAPI) : Request → Prop
  | .nextBlock coinbasePuzzleHash feesPuzzleHash =>
      ((LedgerAPI.doNextBlock E coinbasePuzzleHash feesPuzzleHash).run
          server).1.toOption.isSome = true →
        KeepsDryRunRewards E server coinbasePuzzleHash feesPuzzleHash
  | _ => True

instance (server : LedgerAPI) (request : Request) :
    Decidable (KeepsWhenAccepted E server request) :=
  match request with
  | .nextBlock coinbasePuzzleHash feesPuzzleHash =>
      inferInstanceAs (Decidable (_ = true →
        KeepsDryRunRewards E server coinbasePuzzleHash feesPuzzleHash))
  | .pushTx _ => inferInstanceAs (Decidable True)
  | .skipMilliseconds _ => inferInstanceAs (Decidable True)

/-- Every request of a run meets a condition in the state that it finds. -/
def EachStep (P : LedgerAPI → Request → Prop) (server : LedgerAPI) :
    List Request → Prop
  | [] => True
  | request :: requests =>
      P server request ∧ EachStep P (LedgerAPI.step E server request) requests

def EachStep.decidable (P : LedgerAPI → Request → Prop)
    [∀ server request, Decidable (P server request)] :
    ∀ server requests, Decidable (EachStep E P server requests)
  | _, [] => inferInstanceAs (Decidable True)
  | server, request :: requests =>
      have := EachStep.decidable P (LedgerAPI.step E server request) requests
      inferInstanceAs (Decidable (P server request ∧ EachStep E P _ requests))

instance (P : LedgerAPI → Request → Prop)
    [∀ server request, Decidable (P server request)] (server : LedgerAPI)
    (requests : List Request) : Decidable (EachStep E P server requests) :=
  EachStep.decidable E P server requests

theorem eachStep_append {P : LedgerAPI → Request → Prop}
    {requests : List Request} {request : Request} :
    EachStep E P LedgerAPI.initial (requests ++ [request]) ↔
      EachStep E P LedgerAPI.initial requests ∧
        P (LedgerAPI.run E requests) request := by
  unfold LedgerAPI.run
  generalize LedgerAPI.initial = server
  induction requests generalizing server with
  | nil => simp [EachStep]
  | cons first rest ih =>
      rw [List.cons_append, EachStep, EachStep, ih, and_assoc]
      rfl

/-- The rewards of the trials so far belong to blocks up to the tip, or are
those of the dry runs for the pending bundles. -/
def TrialsKnown (blobs : List Bytes) (server : LedgerAPI)
    (s : State Bytes32) : Prop :=
  ∀ name ∈ s.trialRewards,
    (∃ k ≤ s.tip, parentName E blobs name = indexHash k) ∨
      ∃ pending ∈ server.spendBundles.inits, pending ≠ [] ∧
        ∃ coin ∈ rewardCoins E server.chainView.tipIndex
            (pending.flatMap SpendBundle.coinSolutions)
            dryRunCoinbasePuzzleHash dryRunFeesPuzzleHash,
          coin.name E = name

variable {E}

theorem TrialsKnown.step {blobs : List Bytes} {server server' : LedgerAPI}
    {chain : List (Header × Body)} {s s' : State Bytes32} {request : Request}
    {response : Except Exn Response} (hs : Simulates E blobs server chain s)
    (h : TrialsKnown E blobs server s)
    (hstep : SpeculativeStep E blobs server s request response server' s') :
    TrialsKnown E blobs server' s' := by
  cases hstep with
  | refused e added => exact h
  | skipped ms => exact h
  | @pushed tx f a _ _ =>
      intro name hname
      rcases List.mem_append.mp hname with hnew | hold
      · obtain ⟨coin, hcoin, rfl⟩ := List.mem_map.mp hnew
        refine .inr ⟨server.spendBundles ++ [tx], ?_, by simp, coin, ?_, rfl⟩
        · exact (List.mem_inits _ _).mpr (List.prefix_refl _)
        · exact f.rewardCoins_eq ▸ hcoin
      · rcases h name hold with hroot | ⟨pending, hmem, hpending⟩
        · exact .inl hroot
        · refine .inr ⟨pending, (List.mem_inits _ _).mpr ?_, hpending⟩
          exact ((List.mem_inits _ _).mp hmem).trans (List.prefix_append _ _)
  | mined f a _ _ =>
      intro name hname
      exact .inl (hs.inv.trial_parent name hname)

theorem faithful_step {blobs : List Bytes} {server server' : LedgerAPI}
    {chain : List (Header × Body)} {s s' : State Bytes32} {request : Request}
    {response : Except Exn Response} (hs : Simulates E blobs server chain s)
    (htrials : TrialsKnown E blobs server s)
    (hground : SpeculativeLedger.Grounded (parentName E blobs)
      (knownNames E blobs))
    (hresponse : ((LedgerAPI.handle E request).run server).1 = response)
    (hstep : SpeculativeStep E blobs server s request response server' s')
    (hkeeps : KeepsWhenAccepted E server request) (h : Faithful s) :
    Faithful s' := by
  cases hstep with
  | refused e added => exact h
  | skipped ms => exact h
  | pushed f a _ hadmissible => exact h.trial hs.inv hadmissible hground
  | @mined coinbasePuzzleHash feesPuzzleHash f a _ hadmissible =>
      refine h.commit hs.inv hadmissible fun name hname hparent => ?_
      have haccepted : ((LedgerAPI.doNextBlock E coinbasePuzzleHash
          feesPuzzleHash).run server).1.toOption.isSome = true :=
        Except.toOption_isSome_iff.mpr ⟨_, hresponse⟩
      rcases htrials name hname with
        ⟨k, hk, hroot⟩ | ⟨pending, hmem, hne, coin, hcoin, rfl⟩
      · exact absurd (hroot.symm.trans hparent) (hadmissible.root_ne k hk)
      · have hkept := hkeeps haccepted pending hmem hne coin hcoin
        rw [show server.claims = f.claims from rfl, f.rewardCoins_eq] at hkept
        exact List.mem_append_left _ (List.mem_map_of_mem hkept)

namespace LedgerAPI

variable (E) in
def UnspentIsHistory (requests : List Request) : Prop :=
  chainRecords E (blocks E requests) = .ok (run E requests).unspentAtTip

/-- In a run whose blocks keep the rewards of the dry runs, the records read at
the tip are the history of the chain. -/
theorem run_unspent_is_history (hE : E.Lawful) (requests : List Request)
    (hhash : HashAssumptions E (knownBlobs E requests)
      (run E requests).chainView.tipIndex)
    (hkeeps : EachStep E (KeepsWhenAccepted E) initial requests) :
    UnspentIsHistory E requests := by
  obtain ⟨s, hs, -, hfaithful⟩ := run_induction hE hhash
    (fun requests' s => TrialsKnown E (knownBlobs E requests)
        (run E requests') s ∧
      (EachStep E (KeepsWhenAccepted E) initial requests' → Faithful s))
    ⟨by simp [TrialsKnown, State.initial],
      fun _ => SpeculativeLedger.faithful_initial⟩
    (by
      intro requests' request server' response s s' hs hP hserver hresponse
        hstep
      refine ⟨hserver ▸ hP.1.step hs hstep, fun heach => ?_⟩
      obtain ⟨hbefore, hlast⟩ := (eachStep_append E).mp heach
      exact faithful_step hs hP.1 (hhash.grounded hE) hresponse hstep hlast
        (hP.2 hbefore))
    requests (List.Subset.refl _) le_rfl
  obtain ⟨records, hrecords, hreplay⟩ := hs.chainRecords
  rw [UnspentIsHistory, hrecords]
  refine congrArg Except.ok (recordsOf_inj ?_)
  rw [hreplay, ← hfaithful hkeeps, recordsOf_unspentAtTip, hs.records, hs.tip]

open Reference in
theorem run_unspent_is_history_dryRun :
    UnspentIsHistory environment
      (spendCoinbase dryRunCoinbasePuzzleHash dryRunFeesPuzzleHash) := by
  obtain ⟨hchecks, hkeeps⟩ : HashChecks environment
        (knownBlobs environment
          (spendCoinbase dryRunCoinbasePuzzleHash dryRunFeesPuzzleHash))
        (run environment (spendCoinbase dryRunCoinbasePuzzleHash
          dryRunFeesPuzzleHash)).chainView.tipIndex ∧
      EachStep environment (KeepsWhenAccepted environment) initial
        (spendCoinbase dryRunCoinbasePuzzleHash dryRunFeesPuzzleHash) := by
    decide +kernel
  exact run_unspent_is_history environment_lawful _ hchecks.assumptions hkeeps

open Reference in
/-- The dry run's coinbase coin stays in the database when the block has other
puzzle hashes. -/
theorem run_unspent_is_not_history :
    ¬ ∀ requests : List Request,
      HashAssumptions environment (knownBlobs environment requests)
        (run environment requests).chainView.tipIndex →
      UnspentIsHistory environment requests := by
  intro hhistory
  have hrecords := hhistory spendRequests
    (hashAssumptions_of_append doubleSpend_hashAssumptions)
  unfold UnspentIsHistory at hrecords
  have hname : ((chainRecords environment
        (blocks environment spendRequests)).toOption.map fun records =>
          records ((rewardCoin 2 dryRunCoinbasePuzzleHash blockReward).name
            environment)) = some none ∧
      (run environment spendRequests).unspentAtTip
          ((rewardCoin 2 dryRunCoinbasePuzzleHash blockReward).name
            environment) = some ⟨2, 0⟩ := by
    decide +kernel
  rw [hrecords] at hname
  have hsame : some ((run environment spendRequests).unspentAtTip
      ((rewardCoin 2 dryRunCoinbasePuzzleHash blockReward).name
        environment)) = some none := hname.1
  rw [hname.2] at hsame
  simp at hsame

end LedgerAPI

end LedgerSim
