import LedgerSim.AsyncLedger
import LedgerSim.LedgerStep

/-!
# Requests one after another

On `RAM_DB`s of the server alone, a request that is never interrupted answers
and writes what `LedgerAPI.handle` says.  So every run of the sequential server
is a run of the tasks of the concurrent one, and so is one in which a request
waits for the lock of another.
-/

namespace LedgerSim

open Coroutine TaskPool

variable (E : Environment)

namespace Async

variable {E} {α β : Type} {server : Server}

variable (E) in
/-- Uninterrupted, the coroutine is the statement on the server's heap. -/
abbrev Performs (c : AsyncM α) (x : DbM α) (server : Server) : Prop :=
  Alone (RamStorage E) c server (x.run server.heap).1
    { server with heap := (x.run server.heap).2 }

theorem Performs.bind {c : AsyncM α} {x : DbM α} {f : α → AsyncM β}
    {g : α → DbM β} (hc : Performs E c x server)
    (hf : ∀ a heap, x.run server.heap = (.ok a, heap) →
      Performs E (f a) (g a) { server with heap := heap }) :
    Performs E (c >>= f) (x >>= g) server := by
  unfold Performs at hc ⊢
  rw [Exec.run_bind]
  rcases hrun : x.run server.heap with ⟨result, heap⟩
  rw [hrun] at hc
  cases result with
  | ok a => exact hc.bind (hf a heap hrun)
  | error e => exact hc.bind_error f

theorem Performs.get_bind {c : AsyncM α} {g : Heap → DbM α}
    (h : Performs E c (g server.heap) server) :
    Performs E c (Exec.get >>= g) server :=
  h

theorem performs_ofExcept {c : AsyncM α} {r : Except Exn α}
    (h : Reads (RamStorage E) c r server) :
    Performs E c (Exec.ofExcept r) server :=
  h

theorem Performs.ofExcept_bind {r : Except Exn α} {f : α → AsyncM β}
    {g : α → DbM β} (hf : ∀ a, r = .ok a → Performs E (f a) (g a) server) :
    Performs E (ofExcept r >>= f) (Exec.ofExcept r >>= g) server := by
  apply Performs.bind (performs_ofExcept (.done r server))
  intro a heap hrun
  obtain ⟨hr, rfl⟩ := Prod.mk.inj hrun
  exact hf a hr

theorem performs_call (op : AsyncOp) (hop : op.IsStorage) :
    Performs E (call op) (op.perform E) server :=
  .call (.storage hop)

theorem Performs.forM {f : α → AsyncM PUnit} {g : α → DbM PUnit}
    (hf : ∀ a (server : Server), Performs E (f a) (g a) server) (l : List α)
    (server : Server) : Performs E (l.forM f) (l.forM g) server := by
  induction l generalizing server with
  | nil => exact .done _ _
  | cons a l ih =>
      apply Performs.bind (hf a server)
      intro _ heap _
      exact ih _

/-! ## Validation -/

theorem reads_hashPreimage (storage : Ref) (hash : Bytes32) :
    Reads (RamStorage E) (hashPreimage storage hash)
      (.ok ((server.heap storage).hashPreimage hash)) server :=
  performs_call (.hashPreimage storage hash) trivial

theorem reads_unspentForCoinName {unspentDb : Ref}
    (hcls : (server.heap unspentDb).cls.isUnspentDB = true)
    (coinName : Bytes32) :
    Reads (RamStorage E) (unspentForCoinName unspentDb coinName)
      (.ok ((server.heap unspentDb).unspentForCoinName coinName)) server := by
  have hrun : (LedgerSim.unspentForCoinName unspentDb coinName).run
      server.heap =
        (.ok ((server.heap unspentDb).unspentForCoinName coinName),
          server.heap) := by
    unfold LedgerSim.unspentForCoinName
    rw [Exec.run_bind, Exec.run_get]
    simp only [hcls, if_true, Exec.run_pure]
  have hcall : Performs E (unspentForCoinName unspentDb coinName)
      (LedgerSim.unspentForCoinName unspentDb coinName) server :=
    performs_call (.unspentForCoinName unspentDb coinName) trivial
  unfold Performs at hcall
  rwa [hrun] at hcall

theorem reads_hashPointerObj (parse : Parser α) (p : HashPointer α)
    (storage : Ref) :
    Reads (RamStorage E) (hashPointerObj E parse p storage)
      (p.obj E parse (server.heap storage).hashPreimage) server := by
  unfold hashPointerObj HashPointer.obj
  cases p.cached with
  | some v => exact .done _ _
  | none =>
      apply Alone.bind (reads_hashPreimage storage p.hash)
      cases (server.heap storage).hashPreimage p.hash with
      | none => exact .done _ _
      | some blob =>
          dsimp only
          split_ifs
          · exact .done _ _
          · exact .done _ _

theorem reads_resolveCoin (ramStorage : Database) (storage : Ref) (npc : Npc) :
    Reads (RamStorage E) (resolveCoin E ramStorage storage npc)
      (LedgerSim.resolveCoin E (overlay ramStorage.hashPreimage
        (server.heap storage).hashPreimage) npc) server := by
  have hread : Reads (RamStorage E)
      (overlayHashPreimage ramStorage storage npc.coinName)
      (.ok (overlay ramStorage.hashPreimage
        (server.heap storage).hashPreimage npc.coinName)) server := by
    unfold overlayHashPreimage overlay
    cases ramStorage.hashPreimage npc.coinName with
    | none => exact reads_hashPreimage storage npc.coinName
    | some blob => exact .done _ _
  apply Alone.bind hread
  unfold LedgerSim.resolveCoin coinPointerObj
  cases overlay ramStorage.hashPreimage
      (server.heap storage).hashPreimage npc.coinName with
  | none => exact .done _ _
  | some blob =>
      apply Reads.ofExcept_bind
      intro coin _
      exact .done _ _

theorem reads_coinToUnspent {unspentDb : Ref}
    (hcls : (server.heap unspentDb).cls.isUnspentDB = true)
    (ramDb : Dict Bytes32 Unspent) (cpcList : List Cpc) :
    Reads (RamStorage E) (coinToUnspent E unspentDb ramDb cpcList)
      (.ok (LedgerSim.coinToUnspent E (overlay
        (server.heap unspentDb).unspentForCoinName ramDb.get) cpcList))
      server := by
  apply Reads.foldlM
  intro d cpc
  have hread : Reads (RamStorage E)
      (overlayUnspentForCoinName unspentDb ramDb (cpc.coin.name E))
      (.ok (overlay (server.heap unspentDb).unspentForCoinName ramDb.get
        (cpc.coin.name E))) server := by
    apply Alone.bind (reads_unspentForCoinName hcls _)
    unfold overlay
    cases (server.heap unspentDb).unspentForCoinName (cpc.coin.name E) with
    | none => exact .done _ _
    | some unspent => exact .done _ _
  exact Alone.bind hread (.done _ _)

theorem reads_acceptBody {unspentDb : Ref}
    (hcls : (server.heap unspentDb).cls.isUnspentDB = true) (tipIndex : ℕ)
    (body : Body) (storage : Ref) (coinbaseReward timestamp : ℤ) :
    Reads (RamStorage E)
      (acceptBody E tipIndex body storage unspentDb coinbaseReward timestamp)
      (LedgerSim.acceptBody E tipIndex body
        (server.heap storage).hashPreimage
        (server.heap unspentDb).unspentForCoinName coinbaseReward timestamp)
      server := by
  apply Reads.ofExcept_bind
  intro npcList _
  apply Reads.ofExcept_bind
  intro outputs _
  apply Reads.ofExcept_bind
  intro _ _
  apply Reads.ofExcept_bind
  intro _ _
  apply Reads.ofExcept_bind
  intro _ _
  apply Reads.bind (Reads.mapM (reads_resolveCoin _ storage) npcList)
  intro cpcList _
  apply Reads.ofExcept_bind
  intro _ _
  apply Alone.bind (reads_coinToUnspent hcls _ cpcList)
  apply Reads.ofExcept_bind
  intro _ _
  apply Reads.ofExcept_bind
  intro _ _
  apply Reads.ofExcept_bind
  intro hashKeyPairs _
  apply Reads.ofExcept_bind
  intro valid _
  apply Reads.ofExcept_bind
  intro _ _
  exact .done _ _

theorem reads_acceptNewBlock {chainView : ChainView}
    (hcls : (server.heap chainView.unspentDb).cls.isUnspentDB = true)
    (header : Header) (storage : Ref) (coinbaseReward timestamp : ℤ) :
    Reads (RamStorage E)
      (acceptNewBlock E chainView header storage coinbaseReward timestamp)
      (LedgerSim.acceptNewBlock E chainView header
        (server.heap storage).hashPreimage
        (server.heap chainView.unspentDb).unspentForCoinName coinbaseReward
        timestamp) server := by
  refine Alone.handle ?_ (.done _ _)
  apply Reads.ofExcept_bind
  intro _ _
  apply Reads.bind (reads_hashPointerObj _ header.bodyHash storage)
  intro body _
  cases body with
  | none => exact .done _ _
  | some body => exact reads_acceptBody hcls _ body storage _ _

theorem reads_checkTipSignature (self : ChainView) (storage : Ref) :
    Reads (RamStorage E) (checkTipSignature E self storage)
      (self.checkTipSignature E (server.heap storage).hashPreimage)
      server := by
  unfold checkTipSignature ChainView.checkTipSignature
  split_ifs
  · exact .done _ _
  apply Reads.bind (reads_hashPointerObj _ self.tipHash storage)
  intro header _
  cases header with
  | none => exact .done _ _
  | some header =>
      apply Reads.bind (reads_hashPointerObj _ header.proofOfSpaceHash storage)
      intro pos _
      cases pos with
      | none => exact .done _ _
      | some pos =>
          apply Reads.ofExcept_bind
          intro headerPointer _
          exact .done _ _

/-! ## Applying a block -/

theorem performs_applyDeltas (blockIndex : ℕ) (additions : List Coin)
    (removals : List Bytes32) (unspentDb storage : Ref) (server : Server) :
    Performs E (applyDeltas E blockIndex additions removals unspentDb storage)
      (LedgerSim.applyDeltas E blockIndex additions removals unspentDb storage)
      server := by
  have haddition : ∀ coin (server : Server),
      Performs E (applyAddition E blockIndex unspentDb storage coin)
        (LedgerSim.applyAddition E blockIndex unspentDb storage coin)
        server := by
    intro coin server
    apply Performs.bind (performs_call (.setUnspentForCoinName unspentDb _ _)
      trivial)
    intro _ heap _
    exact performs_call (.addPreimage storage _) trivial
  have hremoval : ∀ coinName (server : Server),
      Performs E (applyRemoval blockIndex unspentDb coinName)
        (LedgerSim.applyRemoval blockIndex unspentDb coinName) server := by
    intro coinName server
    apply Performs.bind (performs_call (.unspentForCoinName unspentDb coinName)
      trivial)
    intro unspent heap _
    cases unspent with
    | none => exact .done _ _
    | some unspent =>
        exact performs_call (.setUnspentForCoinName unspentDb _ _) trivial
  apply Performs.bind (Performs.forM haddition additions server)
  intro _ heap _
  exact Performs.forM hremoval removals _

theorem performs_augmentChainView {self : ChainView}
    (hcls : (server.heap self.unspentDb).cls.isUnspentDB = true)
    (header : Header) (headerSignature : EORSignature)
    (storage newUnspentDb : Ref) (reward timestamp : ℤ) :
    Performs E
      (augmentChainView E self header headerSignature storage newUnspentDb
        reward timestamp)
      (self.augmentChainView E header headerSignature storage newUnspentDb
        reward timestamp) server := by
  apply Performs.get_bind
  apply Performs.bind (performs_ofExcept
    (reads_acceptNewBlock hcls header storage reward timestamp))
  rintro ⟨additions, removals⟩ heap _
  apply Performs.bind (performs_applyDeltas _ additions removals storage
    newUnspentDb _)
  intro _ heap' _
  apply Performs.ofExcept_bind
  intro tipHash _
  apply Performs.get_bind
  apply Performs.bind (performs_ofExcept (reads_checkTipSignature _ storage))
  intro _ heap'' _
  exact .done _ _

theorem addPreimage_heap_cls (storage db : Ref) (blob : Bytes) (heap : Heap) :
    (((LedgerSim.addPreimage E storage blob).run heap).2 db).cls =
      (heap db).cls := by
  unfold LedgerSim.addPreimage
  rw [Exec.run_bind, Exec.run_get]
  dsimp only
  split_ifs
  · simp only [Exec.run_modify]
    by_cases hsame : db = storage
    · subst hsame
      rw [Heap.put_self, Database.addPreimage_cls]
    · rw [Heap.put_of_ne _ _ hsame]
  · rfl

theorem performs_newChainView {chainView : ChainView}
    (hcls : (server.heap chainView.unspentDb).cls.isUnspentDB = true)
    (spendBundles : List SpendBundle)
    (coinbasePuzzleHash feesPuzzleHash : Bytes32) (storage unspentDb : Ref) :
    Performs E
      (newChainView E chainView spendBundles coinbasePuzzleHash feesPuzzleHash
        storage unspentDb)
      (LedgerSim.newChainView E chainView spendBundles coinbasePuzzleHash
        feesPuzzleHash storage unspentDb server.now) server := by
  apply Alone.get_bind
  apply Performs.ofExcept_bind
  rintro ⟨header, body, headerSignature⟩ _
  apply Performs.ofExcept_bind
  intro headerBlob _
  apply Performs.bind (performs_call (.addPreimage storage headerBlob)
    trivial)
  intro _ heap hheader
  apply Performs.ofExcept_bind
  intro bodyBlob _
  apply Performs.bind (performs_call (.addPreimage storage bodyBlob)
    trivial)
  intro _ heap' hbody
  apply Alone.get_bind
  apply performs_augmentChainView
  have hheader := addPreimage_heap_cls (E := E) storage chainView.unspentDb
    headerBlob server.heap
  have hbody := addPreimage_heap_cls (E := E) storage chainView.unspentDb
    bodyBlob heap
  simp_all [AsyncOp.perform]

/-! ## Requests -/

theorem alone_withNextBlockLock {c : AsyncM α} {task : ℕ}
    {r : Except Exn α} {self self' : LedgerAPI}
    (hc : Alone (RamStorage E) c ⟨self, some task⟩ r ⟨self', some task⟩) :
    Alone (RamStorage E) (withNextBlockLock task c) ⟨self, none⟩ r
      ⟨self', none⟩ := by
  have hacquire : RamStorage E ⟨self, none⟩ (.acquire task) (.ok ())
      ⟨self, some task⟩ := .acquire task rfl
  apply Alone.bind (Alone.call hacquire)
  exact hc.handle (.access (.done _ _))

variable {self : LedgerAPI}

theorem alone_newChainView (hself : self.WellFormed E) (task : ℕ)
    (spendBundles : List SpendBundle)
    (coinbasePuzzleHash feesPuzzleHash : Bytes32) :
    Alone (RamStorage E)
      (newChainView E self.chainView spendBundles coinbasePuzzleHash
        feesPuzzleHash self.storage self.unspentDb) ⟨self, some task⟩
      (self.attempt E spendBundles coinbasePuzzleHash feesPuzzleHash).1
      ⟨{ self with heap := (self.attempt E spendBundles coinbasePuzzleHash
        feesPuzzleHash).2 }, some task⟩ := by
  have hcls : (self.heap self.chainView.unspentDb).cls.isUnspentDB = true := by
    rw [hself.viewDb]
    exact congrArg DatabaseClass.isUnspentDB hself.cls
  have hperforms : Performs E _ _ ⟨self, some task⟩ :=
    performs_newChainView hcls spendBundles coinbasePuzzleHash feesPuzzleHash
      self.storage self.unspentDb
  exact hperforms

theorem doPushTx_alone (hself : self.WellFormed E) (task : ℕ)
    (tx : SpendBundle) :
    Alone (RamStorage E) (doPushTx E task tx) ⟨self, none⟩
      ((LedgerAPI.doPushTx E tx).run self).1
      ⟨((LedgerAPI.doPushTx E tx).run self).2, none⟩ := by
  rw [LedgerAPI.doPushTx_run]
  unfold doPushTx
  cases validateSpendBundleSignature E tx with
  | error e => exact .done _ _
  | ok valid =>
      cases valid with
      | false => exact .done _ _
      | true =>
          have hview := alone_newChainView hself task
            (self.spendBundles ++ [tx]) dryRunCoinbasePuzzleHash
            dryRunFeesPuzzleHash
          rcases hattempt : self.attempt E (self.spendBundles ++ [tx])
            dryRunCoinbasePuzzleHash dryRunFeesPuzzleHash with ⟨outcome, heap⟩
          rw [hattempt] at hview
          apply Alone.bind (.done (.ok true) _)
          apply Alone.bind (.done (.ok ()) _)
          cases outcome with
          | error e =>
              apply Alone.bind_error
              apply alone_withNextBlockLock
              apply Alone.get_bind
              exact Alone.bind_error hview _
          | ok view =>
              refine Alone.bind (a := ()) (alone_withNextBlockLock ?_) (.done _ _)
              apply Alone.get_bind
              apply Alone.bind hview
              exact .access (.done _ _)

theorem doNextBlock_alone (hself : self.WellFormed E) (task : ℕ)
    (coinbasePuzzleHash feesPuzzleHash : Bytes32) :
    Alone (RamStorage E)
      (doNextBlock E task coinbasePuzzleHash feesPuzzleHash) ⟨self, none⟩
      ((LedgerAPI.doNextBlock E coinbasePuzzleHash feesPuzzleHash).run self).1
      ⟨((LedgerAPI.doNextBlock E coinbasePuzzleHash feesPuzzleHash).run self).2,
        none⟩ := by
  rw [LedgerAPI.doNextBlock_run]
  have hview := alone_newChainView hself task self.spendBundles
    coinbasePuzzleHash feesPuzzleHash
  rcases hattempt : self.attempt E self.spendBundles coinbasePuzzleHash
    feesPuzzleHash with ⟨outcome, heap⟩
  rw [hattempt] at hview
  cases outcome with
  | error e =>
      apply alone_withNextBlockLock
      apply Alone.get_bind
      exact Alone.bind_error hview _
  | ok view =>
      apply alone_withNextBlockLock
      apply Alone.get_bind
      apply Alone.bind hview
      refine Alone.bind (a := ()) (.access (.done _ _)) ?_
      refine Alone.bind (a := ()) (.access (.done _ _)) ?_
      apply Reads.bind (reads_hashPointerObj _ view.tipHash self.storage)
      intro header _
      cases header with
      | none => exact .done _ _
      | some header =>
          apply Reads.bind (reads_hashPointerObj _ header.bodyHash self.storage)
          intro body _
          exact .done _ _

/-- A request that is not interrupted is a step of the sequential server. -/
theorem handle_alone (hself : self.WellFormed E) (task : ℕ)
    (request : Request) :
    Alone (RamStorage E) (handle E task request) ⟨self, none⟩
      ((LedgerAPI.handle E request).run self).1
      ⟨LedgerAPI.step E self request, none⟩ := by
  cases request with
  | pushTx tx => exact doPushTx_alone hself task tx
  | nextBlock coinbasePuzzleHash feesPuzzleHash =>
      exact doNextBlock_alone hself task coinbasePuzzleHash feesPuzzleHash
  | skipMilliseconds ms => exact .access (.access (.done _ _))

end Async

/-! ## Runs -/

abbrev RamStep : RequestPool → RequestPool → Prop :=
  Step (RamStorage E) (Async.handle E)

abbrev RamRun : RequestPool → RequestPool → Prop :=
  Run (RamStorage E) (Async.handle E)

/-- The pool after one more request, which a new task runs to its end. -/
def finishRequest (pool : RequestPool) (request : Request) : RequestPool :=
  let self := pool.shared.toLedgerAPI
  let task := pool.log.length
  let result := ((LedgerAPI.handle E request).run self).1
  { shared := ⟨LedgerAPI.step E self request, none⟩
    tasks := Function.update pool.tasks task (some (request, .done result))
    log := pool.log ++ [⟨task, request, result⟩] }

/-- One request after another, on a new server. -/
def sequentialPool (requests : List Request) : RequestPool :=
  requests.foldl (finishRequest E) (Pool.initial Server.initial)

/-- The pool is reached by requests that run one after another. -/
structure Sequential (requests : List Request) (pool : RequestPool) : Prop where
  run : RamRun E (Pool.initial Server.initial) pool
  shared : pool.shared = ⟨LedgerAPI.run E requests, none⟩
  fresh : ∀ task, pool.log.length ≤ task → pool.tasks task = none

variable {E}

theorem Sequential.finishRequest {requests : List Request}
    {pool : RequestPool} (h : Sequential E requests pool) (request : Request) :
    Sequential E (requests ++ [request]) (finishRequest E pool request) := by
  have hself := LedgerAPI.run_wellFormed (E := E) requests
  constructor
  case run =>
    apply h.run.trans
    have halone := Async.handle_alone hself pool.log.length request
    rw [← h.shared] at halone
    have hend : Run (RamStorage E) (Async.handle E) _ _ :=
      halone.run pool pool.log.length request
    apply Relation.ReflTransGen.head
      (.start request (h.fresh pool.log.length le_rfl))
    simpa only [LedgerSim.finishRequest, h.shared] using hend
  case shared =>
    simp only [LedgerSim.finishRequest, h.shared, LedgerAPI.run_append]
  case fresh =>
    intro task htask
    simp only [LedgerSim.finishRequest, List.length_append,
      List.length_singleton] at htask ⊢
    rw [Function.update_of_ne (by omega)]
    exact h.fresh task (by omega)

theorem sequentialPool_append (requests : List Request) (request : Request) :
    sequentialPool E (requests ++ [request]) =
      finishRequest E (sequentialPool E requests) request :=
  List.foldl_concat ..

theorem sequentialPool_sequential (requests : List Request) :
    Sequential E requests (sequentialPool E requests) := by
  induction requests using List.reverseRecOn with
  | nil => exact ⟨.refl, rfl, fun _ _ => rfl⟩
  | append_singleton requests request ih =>
      rw [sequentialPool_append]
      exact ih.finishRequest request

/-! ## Requests that overlap -/

variable {requests : List Request} {pool : RequestPool}

/-- One task holds the lock and waits for a storage while another one waits for
the lock. -/
structure Overlap (pool : RequestPool) (task task' : ℕ) : Prop where
  holds : pool.shared.nextBlockLock = some task
  storage : ∃ request op next,
    pool.tasks task = some (request, .await op next) ∧ op.IsStorage
  lock : ∃ request next,
    pool.tasks task' = some (request, .await (.acquire task') next)

variable (E) in
/-- The rest of a request that waits for the lock. -/
def locked (task : ℕ) (request : Request) : AsyncM Response :=
  match Async.handle E task request with
  | .await (.acquire _) next => next (.ok ())
  | c => c

theorem Alone.of_acquire {task : ℕ} {self : LedgerAPI} {server : Server}
    {next : Except Exn Unit → AsyncM Response} {result : Except Exn Response}
    (h : Alone (RamStorage E) (.await (.acquire task) next) ⟨self, none⟩
      result server) :
    Alone (RamStorage E) (next (.ok ())) ⟨self, some task⟩ result server := by
  cases h with
  | await hanswer h =>
      cases hanswer with
      | acquire => exact h
      | storage hop => exact hop.elim

/-- A request gets the lock and waits for a storage. -/
theorem ramRun_holding {self : LedgerAPI} {task : ℕ}
    (hshared : pool.shared = ⟨self, none⟩) (hfresh : pool.tasks task = none)
    {request : Request} {next : Except Exn Unit → AsyncM Response}
    (hacquire : (Async.handle E task request).settle ⟨self, none⟩ =
      (⟨self, none⟩, .await (.acquire task) next))
    {server : Server} {op : AsyncOp}
    {next' : Except Exn op.Answer → AsyncM Response}
    (hwaits : (next (.ok ())).settle ⟨self, some task⟩ =
      (server, .await op next')) :
    RamRun E pool ⟨server, Function.update pool.tasks task
      (some (request, .await op next')), pool.log⟩ := by
  have hstart : RamStep E pool ⟨⟨self, none⟩, Function.update pool.tasks task
      (some (request, .await (.acquire task) next)), pool.log⟩ :=
    .start_await hfresh (hshared.symm ▸ hacquire)
  have hresume := @Step.resume_await _ _ _ _ _ _ (RamStorage E)
    (Async.handle E) ⟨⟨self, none⟩, Function.update pool.tasks task
      (some (request, .await (.acquire task) next)), pool.log⟩ task request _ _
    _ _ (Function.update_self ..) _ _ _ (.acquire task rfl) hwaits
  rw [Function.update_idem] at hresume
  exact (Relation.ReflTransGen.single hstart).tail hresume

/-- Two tasks that wait finish one after the other. -/
theorem ramRun_finished {self self' : LedgerAPI} {server : Server}
    {task task' : ℕ} {request request' : Request} {op op' : AsyncOp}
    {next : Except Exn op.Answer → AsyncM Response}
    {next' : Except Exn op'.Answer → AsyncM Response}
    {result result' : Except Exn Response} (hne : task ≠ task')
    (hfirst : Alone (RamStorage E) (.await op next) server result
      ⟨self, none⟩)
    (hsecond : Alone (RamStorage E) (.await op' next') ⟨self, none⟩ result'
      ⟨self', none⟩) :
    RamRun E
      ⟨server, Function.update (Function.update pool.tasks task
        (some (request, .await op next))) task'
          (some (request', .await op' next')), pool.log⟩
      ⟨⟨self', none⟩, Function.update (Function.update pool.tasks task
        (some (request, .done result))) task'
          (some (request', .done result')),
        pool.log ++ [⟨task, request, result⟩] ++
          [⟨task', request', result'⟩]⟩ := by
  have h := @Alone.finish _ _ _ _ _ _ (RamStorage E) (Async.handle E)
    ⟨server, Function.update (Function.update pool.tasks task
      (some (request, .await op next))) task'
        (some (request', .await op' next')), pool.log⟩ task request op next
    ((Function.update_of_ne hne ..).trans (Function.update_self ..)) _ _ hfirst
  rw [Function.update_comm hne, Function.update_idem,
    Function.update_comm hne.symm, Function.update_comm hne.symm] at h
  have h' := @Alone.finish _ _ _ _ _ _ (RamStorage E) (Async.handle E)
    ⟨⟨self, none⟩, Function.update (Function.update pool.tasks task
      (some (request, .done result))) task'
        (some (request', .await op' next')),
      pool.log ++ [⟨task, request, result⟩]⟩ task' request' op' next'
    (Function.update_self ..) _ _ hsecond
  rw [Function.update_idem] at h'
  exact h.trans h'

/-- A block that is asked for while another request holds the lock is farmed
after that request. -/
theorem Sequential.overlap (h : Sequential E requests pool) {first : Request}
    {next : Except Exn Unit → AsyncM Response}
    (hacquire : Async.handle E pool.log.length first =
      .await (.acquire pool.log.length) next)
    (hlock : ((locked E pool.log.length first).settle
      ⟨LedgerAPI.run E requests, some pool.log.length⟩).1.nextBlockLock =
        some pool.log.length)
    (hawaits : ∃ op ∈ (locked E pool.log.length first).awaits
      ⟨LedgerAPI.run E requests, some pool.log.length⟩, op.IsStorage)
    (coinbasePuzzleHash feesPuzzleHash : Bytes32) :
    ∃ mid, RamRun E (Pool.initial Server.initial) mid ∧
      Overlap mid pool.log.length (pool.log.length + 1) ∧
      RamRun E mid (LedgerSim.finishRequest E
        (LedgerSim.finishRequest E pool first)
        (.nextBlock coinbasePuzzleHash feesPuzzleHash)) := by
  have hself := LedgerAPI.run_wellFormed (E := E) requests
  have hfresh := h.fresh pool.log.length le_rfl
  have hlater := h.fresh (pool.log.length + 1) (Nat.le_succ _)
  have hne : pool.log.length ≠ pool.log.length + 1 := by omega
  have hlocked : locked E pool.log.length first = next (.ok ()) := by
    unfold locked
    rw [hacquire]
  rw [hlocked] at hlock hawaits
  obtain ⟨op, hop, hstorage⟩ := hawaits
  obtain ⟨next', hnext'⟩ := awaits_eq_some_iff.mp hop
  obtain ⟨server, hwaits, hlock⟩ : ∃ server, (next (.ok ())).settle
      ⟨LedgerAPI.run E requests, some pool.log.length⟩ =
        (server, .await op next') ∧
      server.nextBlockLock = some pool.log.length :=
    ⟨_, Prod.ext rfl hnext', hlock⟩
  have hholding := ramRun_holding h.shared hfresh
    (by rw [hacquire]; rfl) hwaits
  obtain ⟨later, hhandle⟩ : ∃ later, Async.handle E (pool.log.length + 1)
      (.nextBlock coinbasePuzzleHash feesPuzzleHash) =
        .await (.acquire (pool.log.length + 1)) later := ⟨_, rfl⟩
  have hsecond := @Step.start_await _ _ _ _ _ _ (RamStorage E) (Async.handle E)
    ⟨server, Function.update pool.tasks pool.log.length
      (some (first, .await op next')), pool.log⟩
    (pool.log.length + 1) (.nextBlock coinbasePuzzleHash feesPuzzleHash)
    ((Function.update_of_ne hne.symm ..).trans hlater) server _ later
    (by rw [hhandle]; rfl)
  refine ⟨_, (h.run.trans hholding).tail hsecond, ⟨hlock, ?_, ?_⟩, ?_⟩
  · exact ⟨_, _, _, (Function.update_of_ne hne ..).trans
      (Function.update_self ..), hstorage⟩
  · exact ⟨_, _, Function.update_self ..⟩
  · have hfirst := Async.handle_alone hself pool.log.length first
    rw [hacquire] at hfirst
    have hrest := (Alone.of_acquire hfirst).settle
    rw [hwaits] at hrest
    have hafter := Async.handle_alone (hself.step first).1
      (pool.log.length + 1) (.nextBlock coinbasePuzzleHash feesPuzzleHash)
    rw [hhandle] at hafter
    have hfinished := @ramRun_finished E pool _ _ _ _ _ first
      (.nextBlock coinbasePuzzleHash feesPuzzleHash) _ _ _ _ _ _ hne hrest
      hafter
    simpa only [LedgerSim.finishRequest, h.shared, List.length_append,
      List.length_singleton] using hfinished

end LedgerSim
