import LedgerSim.Batching
import LedgerSim.ChainHistory
import LedgerSim.SequentialRequests

/-!
# Concurrent requests

Any number of requests run at once, on storages that may suspend every
operation and answer it in any way.  A request owns the chain view and the
pending bundles while it holds the lock, and what it then commits it commits
between two awaits, so the blocks are flushed from the queue of the accepted
bundles.
-/

namespace LedgerSim

open Coroutine TaskPool Batching

variable (E : Environment)

/-! ## What a new view is made of -/

namespace Async

variable {E}

theorem hashPointerObj_quiet {α : Type} (parse : Parser α) (p : HashPointer α)
    (storage : Ref) :
    (hashPointerObj E parse p storage).Quiet AsyncOp.IsStorage
      fun _ => True := by
  unfold hashPointerObj
  split
  · exact .pure trivial
  · apply (Quiet.call trivial).bind
    intro blob _
    cases blob with
    | none => exact .pure trivial
    | some blob =>
        dsimp only
        split_ifs
        · exact .ofExcept fun _ _ => trivial
        · exact .pure trivial

theorem resolveCoin_quiet (ramStorage : Database) (storage : Ref) (npc : Npc) :
    (resolveCoin E ramStorage storage npc).Quiet AsyncOp.IsStorage
      fun _ => True := by
  have hread : (overlayHashPreimage ramStorage storage npc.coinName).Quiet
      AsyncOp.IsStorage fun _ => True := by
    unfold overlayHashPreimage
    split
    · exact .pure trivial
    · exact .call trivial
  apply hread.bind
  intro blob _
  cases blob with
  | none => exact .raise _
  | some blob =>
      apply Quiet.ofExcept_bind
      intro coin _
      exact .pure trivial

theorem coinToUnspent_quiet (unspentDb : Ref) (ramDb : Dict Bytes32 Unspent)
    (cpcList : List Cpc) :
    (coinToUnspent E unspentDb ramDb cpcList).Quiet AsyncOp.IsStorage
      fun _ => True := by
  apply Quiet.foldlM
  intro d cpc
  refine Quiet.bind (P := fun _ => True) ?_ fun _ _ => .pure trivial
  apply (Quiet.call trivial).bind
  intro unspent _
  cases unspent <;> exact .pure trivial

theorem acceptBody_quiet (tipIndex : ℕ) (body : Body)
    (storage unspentDb : Ref) (coinbaseReward timestamp : ℤ) :
    (acceptBody E tipIndex body storage unspentDb coinbaseReward
      timestamp).Quiet AsyncOp.IsStorage fun _ => True := by
  apply Quiet.ofExcept_bind
  intro npcList _
  apply Quiet.ofExcept_bind
  intro outputs _
  apply Quiet.ofExcept_bind
  intro _ _
  apply Quiet.ofExcept_bind
  intro _ _
  apply Quiet.ofExcept_bind
  intro _ _
  apply (Quiet.mapM (resolveCoin_quiet _ storage) npcList).bind
  intro cpcList _
  apply Quiet.ofExcept_bind
  intro _ _
  apply (coinToUnspent_quiet unspentDb _ cpcList).bind
  intro unspents _
  apply Quiet.ofExcept_bind
  intro _ _
  apply Quiet.ofExcept_bind
  intro _ _
  apply Quiet.ofExcept_bind
  intro hashKeyPairs _
  apply Quiet.ofExcept_bind
  intro valid _
  apply Quiet.ofExcept_bind
  intro _ _
  exact .pure trivial

theorem acceptNewBlock_quiet (chainView : ChainView) (header : Header)
    (storage : Ref) (coinbaseReward timestamp : ℤ) :
    (acceptNewBlock E chainView header storage coinbaseReward
      timestamp).Quiet AsyncOp.IsStorage fun _ => True := by
  refine Quiet.handle (P := fun _ => True) ?_ fun _ _ =>
    .ofExcept fun _ _ => trivial
  apply Quiet.ofExcept_bind
  intro _ _
  apply (hashPointerObj_quiet _ header.bodyHash storage).bind
  intro body _
  cases body with
  | none => exact .raise _
  | some body => exact acceptBody_quiet _ body storage _ _ _

theorem applyDeltas_quiet (blockIndex : ℕ) (additions : List Coin)
    (removals : List Bytes32) (unspentDb storage : Ref) :
    (applyDeltas E blockIndex additions removals unspentDb storage).Quiet
      AsyncOp.IsStorage fun _ => True := by
  have haddition : ∀ coin, (applyAddition E blockIndex unspentDb storage
      coin).Quiet AsyncOp.IsStorage fun _ => True := by
    intro coin
    apply (Quiet.call trivial).bind
    intro _ _
    exact .call trivial
  apply (Quiet.forM haddition additions).bind
  intro _ _
  apply Quiet.forM
  intro coinName
  apply (Quiet.call trivial).bind
  intro unspent _
  cases unspent with
  | none => exact .raise _
  | some unspent => exact .call trivial

theorem checkTipSignature_quiet (self : ChainView) (storage : Ref) :
    (checkTipSignature E self storage).Quiet AsyncOp.IsStorage
      fun _ => True := by
  unfold checkTipSignature
  split_ifs
  · exact .ofExcept fun _ _ => trivial
  apply (hashPointerObj_quiet _ self.tipHash storage).bind
  intro header _
  cases header with
  | none => exact .raise _
  | some header =>
      apply (hashPointerObj_quiet _ header.proofOfSpaceHash storage).bind
      intro pos _
      cases pos with
      | none => exact .raise _
      | some pos =>
          apply Quiet.ofExcept_bind
          intro headerPointer _
          exact .ofExcept fun _ _ => trivial

variable (E) in
/-- The view of a tip that extends the view by a header. -/
def ExtendsBy (self : ChainView) (header : Header)
    (headerSignature : EORSignature) (newUnspentDb : Ref)
    (newView : ChainView) : Prop :=
  ∃ headerBlob, header.bytes = .ok headerBlob ∧
    newView = ⟨self.genesisHash, ⟨E.stdHash headerBlob, some header⟩,
      headerSignature, self.tipIndex + 1, newUnspentDb⟩

theorem augmentChainView_quiet (self : ChainView) (header : Header)
    (headerSignature : EORSignature) (storage newUnspentDb : Ref)
    (reward timestamp : ℤ) :
    (augmentChainView E self header headerSignature storage newUnspentDb reward
      timestamp).Quiet AsyncOp.IsStorage
        (ExtendsBy E self header headerSignature newUnspentDb) := by
  apply (acceptNewBlock_quiet self header storage reward timestamp).bind
  rintro ⟨additions, removals⟩ -
  apply (applyDeltas_quiet _ additions removals storage newUnspentDb).bind
  intro _ _
  apply Quiet.ofExcept_bind
  intro tipHash htipHash
  obtain ⟨headerBlob, hheaderBlob, htipHash⟩ :=
    Except.bind_eq_ok_iff.mp htipHash
  obtain rfl := Except.ok.inj htipHash
  apply (checkTipSignature_quiet _ storage).bind
  intro _ _
  exact .pure ⟨headerBlob, hheaderBlob, rfl⟩

variable (E) in
/-- The view of a block that was farmed from the given view and bundles, at
some time. -/
def FarmedView (chainView : ChainView) (spendBundles : List SpendBundle)
    (newView : ChainView) : Prop :=
  ∃ (coinbasePuzzleHash feesPuzzleHash : Bytes32) (now : ℕ) (f : Farmed E
    chainView spendBundles coinbasePuzzleHash feesPuzzleHash now),
    newView.tipHash = ⟨E.stdHash f.headerBlob, some f.header⟩ ∧
      newView.tipIndex = chainView.tipIndex + 1

/-- Whatever the storages answer, a new view is the one of a farmed block. -/
theorem newChainView_quiet (chainView : ChainView)
    (spendBundles : List SpendBundle)
    (coinbasePuzzleHash feesPuzzleHash : Bytes32) (storage unspentDb : Ref) :
    (newChainView E chainView spendBundles coinbasePuzzleHash feesPuzzleHash
      storage unspentDb).Quiet AsyncOp.IsStorage
        (FarmedView E chainView spendBundles) := by
  apply Quiet.get.bind
  intro self _
  apply Quiet.ofExcept_bind
  rintro ⟨header, body, signature⟩ hfarm
  apply Quiet.ofExcept_bind
  intro _ _
  apply (Quiet.call trivial).bind
  intro _ _
  apply Quiet.ofExcept_bind
  intro _ _
  apply (Quiet.call trivial).bind
  intro _ _
  apply Quiet.get.bind
  intro self' _
  apply (augmentChainView_quiet chainView header signature storage unspentDb
    blockReward self'.now).mono
  rintro _ ⟨headerBlob, hheaderBlob, rfl⟩
  obtain ⟨f, rfl, -, -⟩ := (farmForChainView_eq_ok_iff E).mp hfarm
  obtain rfl := Except.ok.inj (f.header_bytes.symm.trans hheaderBlob)
  exact ⟨_, _, _, f, rfl, rfl⟩

end Async

/-! ## The ledger of a log -/

abbrev LedgerEntry := Entry Request Exn Response

/-- An accepted bundle joins the pending ones, and a block takes them all. -/
def ledgerEvent :
    LedgerEntry → Option (Event (ℕ × SpendBundle) (Header × Body))
  | ⟨task, .pushTx tx, .ok _⟩ => some (.add (task, tx))
  | ⟨_, .nextBlock _ _, .ok (.block header (some body))⟩ =>
      some (.flush (header, body))
  | _ => none

/-- The blocks of a log, each with the submissions that were accepted since
the block before it, and the submissions after the last block. -/
def ledgerQueue (log : List LedgerEntry) :
    Queue (ℕ × SpendBundle) (Header × Body) :=
  replay (log.filterMap ledgerEvent)

theorem ledgerQueue_of_none {log : List LedgerEntry} {entry : LedgerEntry}
    (h : ledgerEvent entry = none) :
    ledgerQueue (log ++ [entry]) = ledgerQueue log := by
  unfold ledgerQueue
  rw [List.filterMap_append, List.filterMap_cons_none h, List.filterMap_nil,
    List.append_nil]

theorem ledgerQueue_of_some {log : List LedgerEntry} {entry : LedgerEntry}
    {event : Event (ℕ × SpendBundle) (Header × Body)}
    (h : ledgerEvent entry = some event) :
    ledgerQueue (log ++ [entry]) = (ledgerQueue log).step event := by
  unfold ledgerQueue
  rw [List.filterMap_append, List.filterMap_cons_some h, List.filterMap_nil,
    replay_append]

def ledgerBlocks (log : List LedgerEntry) : List (Header × Body) :=
  (ledgerQueue log).batches.map Prod.snd

/-- The program that spends the coins of the submissions, in their order. -/
def quotedSpends (submissions : List (ℕ × SpendBundle)) : Program :=
  .ofList [E.quoteKeyword, .ofList <|
    (submissions.flatMap fun s => s.2.coinSolutions).map (solutionEntry E)]

def Answered : Request → Except Exn Response → Prop
  | _, .error _ => True
  | .pushTx tx, .ok response => response = .accepted tx
  | .nextBlock _ _, .ok response =>
      ∃ header body, response = .block header (some body)
  | .skipMilliseconds _, .ok response => ∃ now, response = .now now

theorem ledgerBlocks_append {log : List LedgerEntry} {task : ℕ}
    {request : Request} {result : Except Exn Response}
    (h : Answered request result) :
    ledgerBlocks (log ++ [⟨task, request, result⟩]) =
      ledgerBlocks log ++ Response.newBlock result := by
  have hnone : ∀ entry : LedgerEntry, ledgerEvent entry = none →
      ledgerBlocks (log ++ [entry]) = ledgerBlocks log ++ [] := by
    intro entry hentry
    rw [ledgerBlocks, ledgerQueue_of_none hentry, List.append_nil, ledgerBlocks]
  cases result with
  | error e =>
      apply hnone
      cases request <;> rfl
  | ok response =>
      cases request with
      | pushTx tx =>
          obtain rfl := h
          rw [ledgerBlocks, ledgerQueue_of_some rfl]
          exact (List.append_nil _).symm
      | nextBlock coinbasePuzzleHash feesPuzzleHash =>
          obtain ⟨header, body, rfl⟩ := h
          rw [ledgerBlocks, ledgerQueue_of_some rfl]
          exact List.map_append
      | skipMilliseconds ms =>
          obtain ⟨now, rfl⟩ := h
          exact hnone _ rfl

/-- What the server's fields owe to the requests that were answered. -/
structure LedgerInv (log : List LedgerEntry) (server : Server) : Prop where
  pending : server.spendBundles = (ledgerQueue log).pending.map Prod.snd
  tip : ChainTo E (ledgerBlocks log) server.chainView.tipHash.hash
  tipIndex : server.chainView.tipIndex = (ledgerQueue log).batches.length
  contents : ∀ batch ∈ (ledgerQueue log).batches,
    batch.2.2.solutionProgram = quotedSpends E batch.1
  answered : ∀ entry ∈ log, Answered entry.request entry.result

section LedgerInv

variable {E} {log : List LedgerEntry} {server : Server}

theorem ledgerInv_initial : LedgerInv E [] Server.initial where
  pending := rfl
  tip := .genesis
  tipIndex := rfl
  contents _ h := (List.not_mem_nil h).elim
  answered _ h := (List.not_mem_nil h).elim

theorem LedgerInv.congr (h : LedgerInv E log server) {server' : Server}
    (hview : server'.chainView = server.chainView)
    (hbundles : server'.spendBundles = server.spendBundles) :
    LedgerInv E log server' where
  pending := hbundles.trans h.pending
  tip := hview ▸ h.tip
  tipIndex := hview ▸ h.tipIndex
  contents := h.contents
  answered := h.answered

theorem LedgerInv.answered_append (h : LedgerInv E log server)
    {entry : LedgerEntry} (hanswered : Answered entry.request entry.result) :
    ∀ entry' ∈ log ++ [entry], Answered entry'.request entry'.result := by
  intro entry' hentry'
  rcases List.mem_append.mp hentry' with hold | hnew
  · exact h.answered entry' hold
  · rw [List.mem_singleton.mp hnew]
    exact hanswered

theorem LedgerInv.uneventful (h : LedgerInv E log server) {entry : LedgerEntry}
    (hevent : ledgerEvent entry = none)
    (hanswered : Answered entry.request entry.result) :
    LedgerInv E (log ++ [entry]) server where
  pending := (ledgerQueue_of_none hevent).symm ▸ h.pending
  tip := by
    rw [ledgerBlocks, ledgerQueue_of_none hevent]
    exact h.tip
  tipIndex := (ledgerQueue_of_none hevent).symm ▸ h.tipIndex
  contents := (ledgerQueue_of_none hevent).symm ▸ h.contents
  answered := h.answered_append hanswered

theorem LedgerInv.refused (h : LedgerInv E log server) (task : ℕ)
    (request : Request) (e : Exn) :
    LedgerInv E (log ++ [⟨task, request, .error e⟩]) server := by
  apply h.uneventful
  · cases request <;> rfl
  · trivial

theorem LedgerInv.accepted (h : LedgerInv E log server) (task : ℕ)
    (tx : SpendBundle) {server' : Server}
    (hview : server'.chainView = server.chainView)
    (hbundles : server'.spendBundles = server.spendBundles ++ [tx]) :
    LedgerInv E (log ++ [⟨task, .pushTx tx, .ok (.accepted tx)⟩]) server' := by
  have hqueue : ledgerQueue (log ++ [⟨task, .pushTx tx,
      .ok (.accepted tx)⟩]) = (ledgerQueue log).step (.add (task, tx)) :=
    ledgerQueue_of_some rfl
  constructor
  · rw [hbundles, h.pending, hqueue, Queue.step, List.map_append]
    rfl
  · rw [ledgerBlocks, hqueue, hview]
    exact h.tip
  · rw [hqueue, hview]
    exact h.tipIndex
  · rw [hqueue]
    exact h.contents
  · exact h.answered_append rfl

theorem LedgerInv.mined (h : LedgerInv E log server) (task : ℕ)
    {chainView : ChainView} {spendBundles : List SpendBundle}
    {coinbasePuzzleHash feesPuzzleHash : Bytes32} {now : ℕ}
    (f : Farmed E chainView spendBundles coinbasePuzzleHash feesPuzzleHash now)
    (hchainView : server.chainView = chainView)
    (hspendBundles : server.spendBundles = spendBundles)
    (request : Bytes32 × Bytes32) {server' : Server}
    (htip : server'.chainView.tipHash = ⟨E.stdHash f.headerBlob, some f.header⟩)
    (hindex : server'.chainView.tipIndex = server.chainView.tipIndex + 1)
    (hbundles : server'.spendBundles = []) :
    LedgerInv E (log ++ [⟨task, .nextBlock request.1 request.2,
      .ok (.block f.header (some f.body))⟩]) server' := by
  subst hchainView hspendBundles
  have hqueue : ledgerQueue (log ++ [⟨task, .nextBlock request.1 request.2,
      .ok (.block f.header (some f.body))⟩]) =
        (ledgerQueue log).step (.flush (f.header, f.body)) :=
    ledgerQueue_of_some rfl
  have hspends : f.body.solutionProgram =
      quotedSpends E (ledgerQueue log).pending := by
    change bestSolutionProgram E f.bundle = _
    rw [bestSolutionProgram, f.coinSolutions_eq, Farmed.claims, h.pending,
      List.flatMap_map]
    rfl
  constructor
  · rw [hbundles, hqueue]
    rfl
  · have hblocks : ((ledgerQueue log).step
        (.flush (f.header, f.body))).batches.map Prod.snd =
        ledgerBlocks log ++ [(f.header, f.body)] := by
      simp [ledgerBlocks, Queue.step]
    rw [ledgerBlocks, hqueue, htip, hblocks]
    exact .block h.tip rfl f.body_bytes rfl f.header_bytes
  · rw [hqueue, hindex, h.tipIndex]
    simp [Queue.step]
  · rw [hqueue]
    intro batch hbatch
    rcases List.mem_append.mp hbatch with hold | hnew
    · exact h.contents batch hold
    · rw [List.mem_singleton.mp hnew]
      exact hspends
  · exact h.answered_append ⟨_, _, rfl⟩

end LedgerInv

/-! ## Tasks -/

/-- Another task leaves a server alone whose lock the task holds. -/
def LockKept (task : ℕ) (server server' : Server) : Prop :=
  server.nextBlockLock = some task → server'.nextBlockLock = some task ∧
    server'.chainView = server.chainView ∧
    server'.spendBundles = server.spendBundles

theorem LockKept.refl (task : ℕ) (server : Server) :
    LockKept task server server :=
  fun hlock => ⟨hlock, rfl, rfl⟩

theorem LockKept.trans (task : ℕ) (server server' server'' : Server)
    (h : LockKept task server server')
    (h' : LockKept task server' server'') : LockKept task server server'' := by
  intro hlock
  obtain ⟨hlock', hview, hbundles⟩ := h hlock
  obtain ⟨hlock'', hview', hbundles'⟩ := h' hlock'
  exact ⟨hlock'', hview'.trans hview, hbundles'.trans hbundles⟩

/-- The task holds the lock of a server with the given view and bundles. -/
structure Holds (task : ℕ) (chainView : ChainView)
    (spendBundles : List SpendBundle) (server : Server) : Prop where
  lock : server.nextBlockLock = some task
  chainView : server.chainView = chainView
  spendBundles : server.spendBundles = spendBundles

abbrev LedgerSegment (task : ℕ) : Server → Server → Prop :=
  AllowedSegment LockKept (LedgerInv E) task

abbrev LedgerWp {α : Type} (task : ℕ)
    (K : Except Exn α → Server → Server → Prop) :
    AsyncM α → Server → Server → Prop :=
  Wp AnyStorage (LockKept task) (LedgerSegment E task) K

section Tasks

variable {E} {task : ℕ} {server₀ server server' : Server}

/-- Only the fields that the lock protects matter. -/
theorem LedgerSegment.of_fields
    (hlock : server.nextBlockLock = server₀.nextBlockLock)
    (hview : server.chainView = server₀.chainView)
    (hbundles : server.spendBundles = server₀.spendBundles) :
    LedgerSegment E task server₀ server where
  others _ _ hother := ⟨hlock.trans hother, hview, hbundles⟩
  inv _ h := h.congr hview hbundles

/-- The task that holds the lock gives it back at its end. -/
theorem allowedEnd_of_release {request : Request}
    {result : Except Exn Response}
    (hsegment : LedgerSegment E task server₀ server)
    (hlock : server.nextBlockLock = some task)
    (hinv : ∀ log, LedgerInv E log server →
      LedgerInv E (log ++ [⟨task, request, result⟩]) server') :
    AllowedEnd LockKept (LedgerInv E) task request result server₀ server' where
  others other hother hheld := by
    have hheld' := (hsegment.others other hother hheld).1
    rw [hlock] at hheld'
    exact absurd (Option.some.inj hheld').symm hother
  inv log h := hinv log (hsegment.inv log h)

theorem ledgerWp_newChainView {chainView : ChainView}
    {spendBundles pending : List SpendBundle}
    {coinbasePuzzleHash feesPuzzleHash : Bytes32} {storage unspentDb : Ref}
    {K : Except Exn ChainView → Server → Server → Prop}
    (hK : ∀ r server₀ server,
      (∀ newView, r = .ok newView →
        Async.FarmedView E chainView spendBundles newView) →
      Holds task chainView pending server →
      LedgerSegment E task server₀ server → K r server₀ server)
    (hholds : Holds task chainView pending server)
    (hsegment : LedgerSegment E task server₀ server) :
    LedgerWp E task K (Async.newChainView E chainView spendBundles
      coinbasePuzzleHash feesPuzzleHash storage unspentDb) server₀ server := by
  refine wp_of_quiet (Async.newChainView_quiet _ _ _ _ storage unspentDb)
    ?_ ?_ hK hholds hsegment
  · intro s s' hs hkept
    obtain ⟨hlock, hview, hbundles⟩ := hkept hs.lock
    exact ⟨hlock, hview.trans hs.chainView, hbundles.trans hs.spendBundles⟩
  · intro s op answer s' hop hs hanswer
    cases hanswer with
    | acquire task hfree => exact hop.elim
    | storage _ answer heap =>
        exact ⟨⟨hs.lock, hs.chainView, hs.spendBundles⟩, .of_fields rfl rfl rfl⟩

theorem ledgerWp_withNextBlockLock {α : Type} {c : AsyncM α}
    {K : Except Exn α → Server → Server → Prop}
    (hsegment : LedgerSegment E task server₀ server)
    (hc : ∀ free : Server, free.nextBlockLock = none →
      LedgerWp E task
        (fun r server₀ server =>
          K r server₀ { server with nextBlockLock := none })
        c free { free with nextBlockLock := some task }) :
    LedgerWp E task K (Async.withNextBlockLock task c) server₀ server := by
  refine ⟨hsegment, fun free _ answer taken hanswer => ?_⟩
  cases hanswer with
  | acquire task hfree =>
      change LedgerWp E task K (c.handle _) free _
      exact wp_handle.mpr (hc free hfree)
  | storage hop => exact hop.elim

theorem ledgerSegment_of_free {free : Server} (hfree : free.nextBlockLock = none)
    (hview : server.chainView = free.chainView)
    (hbundles : server.spendBundles = free.spendBundles) :
    LedgerSegment E task free server where
  others other _ hother := by
    rw [hfree] at hother
    cases hother
  inv _ h := h.congr hview hbundles

theorem holds_taken (task : ℕ) (free : Server) :
    Holds task free.chainView free.spendBundles
      { free with nextBlockLock := some task } :=
  ⟨rfl, rfl, rfl⟩

theorem doPushTx_safe (task : ℕ) (tx : SpendBundle) (server : Server) :
    Safe AnyStorage LockKept (LedgerInv E) task (.pushTx tx)
      (Async.doPushTx E task tx) server server := by
  have hrefused : ∀ e, AllowedEnd LockKept (LedgerInv E) task (.pushTx tx)
      (.error e) server server := fun e =>
    ⟨fun other _ => .refl other server, fun log h => h.refused task _ e⟩
  unfold Async.doPushTx
  cases hvalid : validateSpendBundleSignature E tx with
  | error e => exact hrefused e
  | ok valid =>
      cases valid with
      | false => exact hrefused _
      | true =>
          change LedgerWp E task _
            ((Async.withNextBlockLock task _).handle (sequel _)) server server
          refine wp_handle.mpr (ledgerWp_withNextBlockLock
            (.of_fields rfl rfl rfl) fun free hfree => ?_)
          change LedgerWp E task _ ((Async.newChainView E free.chainView
            (free.spendBundles ++ [tx]) _ _ _ _).handle (sequel _)) free _
          refine wp_handle.mpr (ledgerWp_newChainView ?_ (holds_taken task free)
            (ledgerSegment_of_free hfree rfl rfl))
          intro r server₀ server _ hholds hsegment
          cases r with
          | error e =>
              exact allowedEnd_of_release hsegment hholds.lock fun log h =>
                (h.refused task _ e).congr rfl rfl
          | ok newView =>
              exact allowedEnd_of_release hsegment hholds.lock fun log h =>
                h.accepted task tx rfl rfl

theorem doNextBlock_safe (task : ℕ)
    (coinbasePuzzleHash feesPuzzleHash : Bytes32) (server : Server) :
    Safe AnyStorage LockKept (LedgerInv E) task
      (.nextBlock coinbasePuzzleHash feesPuzzleHash)
      (Async.doNextBlock E task coinbasePuzzleHash feesPuzzleHash)
      server server := by
  refine ledgerWp_withNextBlockLock (.of_fields rfl rfl rfl)
    fun free hfree => ?_
  change LedgerWp E task _ ((Async.newChainView E free.chainView
    free.spendBundles _ _ _ _).handle (sequel _)) free _
  refine wp_handle.mpr (ledgerWp_newChainView ?_ (holds_taken task free)
    (ledgerSegment_of_free hfree rfl rfl))
  intro r server₀ server hfarmed hholds hsegment
  cases r with
  | error e =>
      exact allowedEnd_of_release hsegment hholds.lock fun log h =>
        (h.refused task _ e).congr rfl rfl
  | ok newView =>
      obtain ⟨genesisHash, tipHash, tipSignature, tipIndex, unspentDb⟩ := newView
      obtain ⟨_, _, now, f, rfl, hindex⟩ := hfarmed _ rfl
      have hindex : tipIndex = server.chainView.tipIndex + 1 := by
        rw [hholds.chainView]
        exact hindex
      have hend : AllowedEnd LockKept (LedgerInv E) task
          (.nextBlock coinbasePuzzleHash feesPuzzleHash)
          (.ok (.block f.header (some f.body))) server₀
          { server with
            spendBundles := []
            chainView := ⟨genesisHash, ⟨E.stdHash f.headerBlob, some f.header⟩,
              tipSignature, tipIndex, unspentDb⟩
            nextBlockLock := none } :=
        allowedEnd_of_release hsegment hholds.lock fun log h =>
          h.mined task f hholds.chainView hholds.spendBundles
            (coinbasePuzzleHash, feesPuzzleHash) rfl hindex rfl
      exact hend

theorem doSkipMilliseconds_safe (task : ℕ) (ms : Bytes) (server : Server) :
    Safe AnyStorage LockKept (LedgerInv E) task (.skipMilliseconds ms)
      (Async.doSkipMilliseconds ms) server server := by
  constructor
  · exact fun other _ hlock => ⟨hlock, rfl, rfl⟩
  · intro log h
    have hclock : LedgerInv E log
        { server with now := server.now + BigEndian.toNat ms } :=
      h.congr rfl rfl
    apply hclock.uneventful
    · rfl
    · exact ⟨_, rfl⟩

theorem handle_safe (task : ℕ) (request : Request) (server : Server) :
    Safe AnyStorage LockKept (LedgerInv E) task request
      (Async.handle E task request) server server := by
  cases request with
  | pushTx tx => exact doPushTx_safe task tx server
  | nextBlock coinbasePuzzleHash feesPuzzleHash =>
      exact doNextBlock_safe task coinbasePuzzleHash feesPuzzleHash server
  | skipMilliseconds ms => exact doSkipMilliseconds_safe task ms server

end Tasks

/-! ## Submissions -/

theorem ledgerEvent_eq_add_iff {entry : LedgerEntry} {task : ℕ}
    {tx : SpendBundle} :
    ledgerEvent entry = some (.add (task, tx)) ↔
      ∃ response, entry = ⟨task, .pushTx tx, .ok response⟩ := by
  constructor
  · intro h
    unfold ledgerEvent at h
    split at h
    · simp only [Option.some.injEq, Event.add.injEq, Prod.mk.injEq] at h
      obtain ⟨rfl, rfl⟩ := h
      exact ⟨_, rfl⟩
    · simp at h
    · cases h
  · rintro ⟨response, rfl⟩
    rfl

theorem ledgerEvent_eq_flush_iff {entry : LedgerEntry} {header : Header}
    {body : Body} :
    ledgerEvent entry = some (.flush (header, body)) ↔
      ∃ task coinbasePuzzleHash feesPuzzleHash,
        entry = ⟨task, .nextBlock coinbasePuzzleHash feesPuzzleHash,
          .ok (.block header (some body))⟩ := by
  constructor
  · intro h
    unfold ledgerEvent at h
    split at h
    · simp at h
    · simp only [Option.some.injEq, Event.flush.injEq, Prod.mk.injEq] at h
      obtain ⟨rfl, rfl⟩ := h
      exact ⟨_, _, _, rfl⟩
    · cases h
  · rintro ⟨task, coinbasePuzzleHash, feesPuzzleHash, rfl⟩
    rfl

/-- Only the accepted submissions are in blocks or pending. -/
theorem mem_ledgerQueue_items {log : List LedgerEntry} {task : ℕ}
    {tx : SpendBundle} (h : (task, tx) ∈ (ledgerQueue log).items) :
    ∃ response, ⟨task, .pushTx tx, .ok response⟩ ∈ log := by
  rw [ledgerQueue, items_replay, mem_added_iff, List.mem_filterMap] at h
  obtain ⟨entry, hentry, hevent⟩ := h
  obtain ⟨response, rfl⟩ := ledgerEvent_eq_add_iff.mp hevent
  exact ⟨response, hentry⟩

/-- Tasks that are logged once submit once. -/
theorem ledgerQueue_items_nodup {log : List LedgerEntry}
    (hnodup : (log.map Entry.task).Nodup) : (ledgerQueue log).items.Nodup := by
  rw [ledgerQueue, items_replay, added, List.filterMap_filterMap]
  apply (List.pairwise_map.mp hnodup).filterMap
  have htask : ∀ (entry : LedgerEntry) (s : ℕ × SpendBundle),
      (ledgerEvent entry).bind Event.item = some s → entry.task = s.1 := by
    rintro entry ⟨task, tx⟩ h
    obtain ⟨event, hevent, hitem⟩ := Option.bind_eq_some_iff.mp h
    rw [Event.item_eq_some_iff] at hitem
    subst hitem
    obtain ⟨response, rfl⟩ := ledgerEvent_eq_add_iff.mp hevent
    rfl
  intro entry entry' hne s hs s' hs' hsame
  apply hne
  rw [htask entry s hs, htask entry' s' hs', hsame]

/-! ## The theorem -/

/-- Any number of requests to a new server, in any interleaving, whatever the
storages answer. -/
abbrev ConcurrentRun (pool : RequestPool) : Prop :=
  Run AnyStorage (Async.handle E) (Pool.initial Server.initial) pool

/-- The blocks and the pending bundles hold the accepted bundles, each once,
and nothing else. -/
structure Accounted (pool : RequestPool) : Prop where
  /-- A block spends what the submissions accepted since the last one spend. -/
  contents : ∀ batch ∈ (ledgerQueue pool.log).batches,
    batch.2.2.solutionProgram = quotedSpends E batch.1
  pending : pool.shared.spendBundles =
    (ledgerQueue pool.log).pending.map Prod.snd
  /-- An accepted bundle is in the first block after its acceptance and in no
  other, and it is pending as long as there is none. -/
  accepted : ∀ before task tx response after,
    pool.log = before ++ ⟨task, .pushTx tx, .ok response⟩ :: after →
      response = .accepted tx ∧
        (∀ k batch, (ledgerQueue pool.log).batches[k]? = some batch →
          ((task, tx) ∈ batch.1 ↔ k = (ledgerBlocks before).length)) ∧
        ((task, tx) ∈ (ledgerQueue pool.log).pending ↔
          (ledgerBlocks pool.log).length = (ledgerBlocks before).length)
  refused : ∀ task request e, ⟨task, request, .error e⟩ ∈ pool.log →
    ∀ tx, (∀ batch ∈ (ledgerQueue pool.log).batches, (task, tx) ∉ batch.1) ∧
      (task, tx) ∉ (ledgerQueue pool.log).pending
  /-- A completed `do_next_block` adds one block to the chain. -/
  mined : ∀ before task coinbasePuzzleHash feesPuzzleHash response,
    before ++ [⟨task, .nextBlock coinbasePuzzleHash feesPuzzleHash,
      .ok response⟩] <+: pool.log →
      ∃ header body, response = .block header (some body) ∧
        ledgerBlocks (before ++ [⟨task, .nextBlock coinbasePuzzleHash
          feesPuzzleHash, .ok response⟩]) =
            ledgerBlocks before ++ [(header, body)]
  chain : ChainTo E (ledgerBlocks pool.log) pool.shared.chainView.tipHash.hash
  tipIndex : pool.shared.chainView.tipIndex = (ledgerBlocks pool.log).length

/-- The tip stays, or one request completes a block on top of it. -/
inductive TipStep (pool pool' : RequestPool) : Prop
  | unchanged
      (hblocks : ledgerBlocks pool'.log = ledgerBlocks pool.log)
      (hindex : pool'.shared.chainView.tipIndex =
        pool.shared.chainView.tipIndex)
      (htip : pool'.shared.chainView.tipHash.hash =
        pool.shared.chainView.tipHash.hash)
  | mined {task : ℕ} {coinbasePuzzleHash feesPuzzleHash : Bytes32}
      {header : Header} {body : Body} {headerBlob : Bytes}
      (hlog : pool'.log = pool.log ++ [⟨task,
        .nextBlock coinbasePuzzleHash feesPuzzleHash,
        .ok (.block header (some body))⟩])
      (hindex : pool'.shared.chainView.tipIndex =
        pool.shared.chainView.tipIndex + 1)
      (hprevious : header.previousHash.hash =
        pool.shared.chainView.tipHash.hash)
      (hblob : header.bytes = .ok headerBlob)
      (htip : pool'.shared.chainView.tipHash.hash = E.stdHash headerBlob)

section Theorem

variable {E} {pool pool' : RequestPool}

theorem ConcurrentRun.ledgerInv (h : ConcurrentRun E pool) :
    LedgerInv E pool.log pool.shared :=
  (Run.poolInv ledgerInv_initial LockKept.refl LockKept.trans handle_safe h).inv

theorem LedgerInv.accounted (h : LedgerInv E pool.log pool.shared)
    (hlog : LogInv pool) : Accounted E pool where
  contents := h.contents
  pending := h.pending
  chain := h.tip
  tipIndex := by rw [ledgerBlocks, List.length_map, h.tipIndex]
  accepted := by
    intro before task tx response after hsplit
    have hentry : ⟨task, .pushTx tx, .ok response⟩ ∈ pool.log := by
      rw [hsplit]
      simp
    have hnodup := ledgerQueue_items_nodup hlog.nodup
    have hlocated : Located (ledgerQueue before) (task, tx)
        (ledgerQueue pool.log) := by
      rw [hsplit, ledgerQueue, ledgerQueue, List.filterMap_append,
        List.filterMap_cons_some (ledgerEvent_eq_add_iff.mpr ⟨response, rfl⟩)]
      exact located _ _ _
    simp only [ledgerBlocks, List.length_map]
    exact ⟨h.answered _ hentry,
      fun k batch hk => hlocated.mem_batch_iff hnodup hk,
      hlocated.mem_pending_iff hnodup⟩
  refused := by
    intro task request e hrefused tx
    have hnot : (task, tx) ∉ (ledgerQueue pool.log).items := by
      intro hmem
      obtain ⟨response, haccepted⟩ := mem_ledgerQueue_items hmem
      have hended := hlog.ended _ hrefused
      have hended' := hlog.ended _ haccepted
      simp [hended] at hended'
    constructor
    · intro batch hbatch hmem
      exact hnot (List.mem_append_left _
        (List.mem_flatMap.mpr ⟨batch, hbatch, hmem⟩))
    · exact fun hmem => hnot (List.mem_append_right _ hmem)
  mined := by
    intro before task coinbasePuzzleHash feesPuzzleHash response hbefore
    obtain ⟨header, body, rfl⟩ := h.answered _
      (hbefore.subset (List.mem_append_right _ (List.mem_singleton_self _)))
    exact ⟨header, body, rfl, ledgerBlocks_append ⟨header, body, rfl⟩⟩

theorem LedgerInv.tipStep (h : LedgerInv E pool.log pool.shared)
    (h' : LedgerInv E pool'.log pool'.shared)
    (hlog : pool'.log = pool.log ∨
      ∃ entry, pool'.log = pool.log ++ [entry]) : TipStep E pool pool' := by
  have hunchanged : (ledgerQueue pool'.log).batches =
      (ledgerQueue pool.log).batches → TipStep E pool pool' := by
    intro hbatches
    have hblocks : ledgerBlocks pool'.log = ledgerBlocks pool.log := by
      rw [ledgerBlocks, hbatches, ledgerBlocks]
    have htip := h'.tip
    rw [hblocks] at htip
    exact .unchanged hblocks (by rw [h'.tipIndex, h.tipIndex, hbatches])
      (htip.tip_unique h.tip)
  rcases hlog with hlog | ⟨entry, hlog⟩
  · exact hunchanged (by rw [hlog])
  cases hevent : ledgerEvent entry with
  | none => exact hunchanged (by rw [hlog, ledgerQueue_of_none hevent])
  | some event =>
      have hqueue : ledgerQueue (pool.log ++ [entry]) =
          (ledgerQueue pool.log).step event := ledgerQueue_of_some hevent
      cases event with
      | add s => exact hunchanged (by rw [hlog, hqueue, Queue.step])
      | flush block =>
          obtain ⟨header, body⟩ := block
          obtain ⟨task, _, _, rfl⟩ := ledgerEvent_eq_flush_iff.mp hevent
          have htip := h'.tip
          rw [hlog, ledgerBlocks, hqueue, Queue.step, List.map_append]
            at htip
          obtain ⟨hprevious, headerBlob, hblob, htip⟩ := htip.of_append
          refine .mined hlog ?_ (hprevious.tip_unique h.tip) hblob htip
          rw [h'.tipIndex, h.tipIndex, hlog, hqueue]
          simp [Queue.step]

end Theorem

theorem concurrent_requests_accounted (pool : RequestPool)
    (hrun : ConcurrentRun E pool) :
    Accounted E pool ∧ ∀ pool', Step AnyStorage (Async.handle E) pool pool' →
      TipStep E pool pool' :=
  ⟨hrun.ledgerInv.accounted (Run.logInv hrun), fun _ hstep =>
    hrun.ledgerInv.tipStep (ConcurrentRun.ledgerInv (hrun.tail hstep))
      hstep.log⟩

/-! ## Runs on one server's storage -/

section Ram

variable {E} {requests : List Request} {pool pool' : RequestPool}

theorem RamRun.concurrent (h : RamRun E pool pool') :
    Run AnyStorage (Async.handle E) pool pool' := by
  apply Run.mono ?_ h
  intro self op answer self' hanswer
  cases hanswer with
  | acquire task hfree => exact .acquire task hfree
  | storage hop => exact .storage hop _ _

theorem Sequential.concurrentRun (h : Sequential E requests pool) :
    ConcurrentRun E pool :=
  RamRun.concurrent h.run

/-- The blocks of the log are the blocks of the sequential run. -/
theorem ledgerBlocks_sequentialPool (requests : List Request) :
    ledgerBlocks (sequentialPool E requests).log =
      LedgerAPI.blocks E requests := by
  induction requests using List.reverseRecOn with
  | nil => rfl
  | append_singleton requests request ih =>
      rw [sequentialPool_append, LedgerAPI.blocks_append, ← ih]
      have hshared := (sequentialPool_sequential (E := E) requests).shared
      have hinv := (sequentialPool_sequential (E := E)
        (requests ++ [request])).concurrentRun.ledgerInv
      rw [sequentialPool_append] at hinv
      have hanswered := hinv.answered _
        (List.mem_append_right _ (List.mem_singleton_self _))
      simp only [finishRequest, hshared] at hanswered ⊢
      exact ledgerBlocks_append hanswered

end Ram

open Reference in
theorem concurrent_requests_accounted_spend :
    ∃ mid, ConcurrentRun environment mid ∧ Overlap mid 1 2 ∧
      Run AnyStorage (Async.handle environment) mid
        (sequentialPool environment spendRequests) ∧
      Accounted environment (sequentialPool environment spendRequests) ∧
      ∀ pool', Step AnyStorage (Async.handle environment)
        (sequentialPool environment spendRequests) pool' →
          TipStep environment (sequentialPool environment spendRequests)
            pool' := by
  have hvalid : validateSpendBundleSignature environment
      (spendBundle (coinbaseCoin []) []) = .ok true :=
    Except.toOption_eq_some_iff.mp (by decide +kernel)
  obtain ⟨next, hnext⟩ : ∃ next, Async.handle environment 1
      (.pushTx (spendBundle (coinbaseCoin []) [])) =
        .await (.acquire 1) next := by
    unfold Async.handle
    dsimp only [Async.doPushTx]
    rw [hvalid]
    exact ⟨_, rfl⟩
  obtain ⟨mid, hmid, hoverlap, hrest⟩ := Sequential.overlap
    (sequentialPool_sequential (E := environment)
      [.nextBlock (puzzleHash []) (SizedBytes.fill 32 4)]) hnext
    (by decide +kernel) (by decide +kernel) (SizedBytes.fill 32 3)
    (SizedBytes.fill 32 4)
  have hmid := RamRun.concurrent hmid
  have hrest := RamRun.concurrent hrest
  exact ⟨mid, hmid, hoverlap, hrest, concurrent_requests_accounted environment
    (sequentialPool environment spendRequests) (hmid.trans hrest)⟩

end LedgerSim
