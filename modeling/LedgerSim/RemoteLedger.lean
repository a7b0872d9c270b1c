import LedgerSim.LedgerService
import LedgerSim.RemoteProgress

/-!
# The ledger as a system

The methods of the ledger return, the loops of the block queries included,
unless a request stays at a breakpoint.  So nothing else that is sent to the
server stops it, and the calls of its clients can be completed.
-/

namespace LedgerSim

variable {E : Environment} {runtime : Runtime} {rounds : ℕ}

/-! ## The block queries return -/

section Loops

variable {hashPreimage : Bytes32 → Option Bytes}

theorem genesisHash_obj (hnone : hashPreimage ledgerGenesisHash.hash = none) :
    ledgerGenesisHash.obj E Header.parse hashPreimage = .ok none := by
  unfold HashPointer.obj
  rw [hnone]
  rfl

/-- Behind the first block there is no header. -/
theorem Remembers.walkBack_first {block : Header × Body} {pointer : HeaderHash}
    (h : Remembers E [block] pointer)
    (hnone : hashPreimage ledgerGenesisHash.hash = none)
    (updateList : List (Option Body)) :
    walkBack E hashPreimage block.1 updateList =
      .error PyException.attributeError := by
  have hprevious : block.1.previousHash = ledgerGenesisHash := h.2
  unfold walkBack
  rw [h.1.obj.2, Except.ok_bind, hprevious, genesisHash_obj hnone]
  rfl

/-- The loop ends at the latest behind the first block, whether or not it has
met the header. -/
theorem Remembers.recentBlocksLoop_returns {block : Header × Body}
    {older : List (Header × Body)} {pointer : HeaderHash}
    (h : Remembers E (block :: older) pointer)
    (hnone : hashPreimage ledgerGenesisHash.hash = none)
    (mostRecentHeader : Header) (updateList : List (Option Body)) :
    ∃ r, recentBlocksLoop E hashPreimage mostRecentHeader
      (block :: older).length block.1 updateList = some r := by
  induction older generalizing block pointer updateList with
  | nil =>
      rw [List.length_singleton, recentBlocksLoop, h.walkBack_first hnone]
      split_ifs
      · exact ⟨_, rfl⟩
      · exact ⟨_, rfl⟩
  | cons next older ih =>
      rw [List.length_cons, recentBlocksLoop]
      by_cases hsame : block.1.SameAs mostRecentHeader
      · rw [if_pos hsame]
        exact ⟨_, rfl⟩
      · rw [if_neg hsame, h.walkBack_eq]
        exact ih h.2 _

namespace LedgerAPI

variable {self : LedgerAPI} {chain : List (Header × Body)}

theorem RemembersChain.doGetRecentBlocks_returns
    (h : self.RemembersChain E chain)
    (hnone : self.db.hashPreimage ledgerGenesisHash.hash = none)
    (hrounds : self.chainView.tipIndex ≤ rounds) (mostRecentHeader : Header) :
    ∃ r, self.doGetRecentBlocks E rounds mostRecentHeader = some r := by
  have hremembers := h.remembers
  rw [← h.length, ← List.length_reverse] at hrounds
  have hbounded : ∃ r, self.doGetRecentBlocks E chain.reverse.length
      mostRecentHeader = some r := by
    unfold doGetRecentBlocks
    dsimp only
    cases hreverse : chain.reverse with
    | nil =>
        rw [hreverse] at hremembers
        have htip : self.chainView.tipHash = ledgerGenesisHash := hremembers
        rw [htip, genesisHash_obj hnone]
        exact ⟨_, rfl⟩
    | cons block older =>
        rw [hreverse] at hremembers
        obtain ⟨r, hr⟩ :=
          hremembers.recentBlocksLoop_returns hnone mostRecentHeader []
        rw [hremembers.1.obj.1]
        dsimp only
        rw [hr]
        exact ⟨_, rfl⟩
  obtain ⟨r, hr⟩ := hbounded
  exact ⟨r, doGetRecentBlocks_mono hr hrounds⟩

theorem RemembersChain.doGetAllBlocks_returns
    (h : self.RemembersChain E chain)
    (hnone : self.db.hashPreimage ledgerGenesisHash.hash = none)
    (hrounds : self.chainView.tipIndex ≤ rounds) :
    ∃ r, self.doGetAllBlocks E rounds = some r := by
  have hremembers := h.remembers
  rw [← h.length] at hrounds
  cases hchain : chain with
  | nil =>
      rw [hchain] at hremembers
      have htip : self.chainView.tipHash = ledgerGenesisHash := hremembers
      unfold doGetAllBlocks
      dsimp only
      rw [htip, genesisHash_obj hnone]
      exact ⟨_, rfl⟩
  | cons first rest =>
      have hne : chain ≠ [] := hchain ▸ List.cons_ne_nil first rest
      exact ⟨_, doGetAllBlocks_mono (h.doGetAllBlocks_eq hne) hrounds⟩

end LedgerAPI

end Loops

/-! ## The methods return -/

theorem Method.request_returns_iff {α : Type} {args : Kwargs → Except Exn α}
    {make : α → Request} (kwargs : Kwargs) (self : RunningLedger) :
    (Method.request E runtime args make kwargs self).1 ≠ none ↔
      runtime.Passes E self.ledger
        ((args kwargs).toOption.toList.map make) := by
  unfold Method.request
  cases args kwargs with
  | error e => exact iff_of_true nofun Runtime.passes_nil
  | ok a =>
      change runtime.pass _ ≠ none ↔ runtime.Passes E self.ledger [make a]
      rw [Ne, Runtime.pass_map_eq_none_iff, Runtime.passes_singleton_iff]

theorem Method.query_returns {α : Type} {args : Kwargs → Except Exn α}
    {f : α → RunningLedger → Option (Except Exn PyObject)}
    {self : RunningLedger} (hf : ∀ a, ∃ r, f a self = some r)
    (kwargs : Kwargs) : (Method.query args f kwargs self).1 ≠ none := by
  rw [Option.ne_none_iff_exists']
  unfold Method.query
  cases args kwargs with
  | error e => exact ⟨_, rfl⟩
  | ok a => exact hf a

/-- A call returns unless it stays at a breakpoint. -/
theorem LedgerService.method_returns_iff {name : String} {method : Method}
    (hmethod : LedgerService.method E runtime rounds name = some method)
    {self : RunningLedger} {chain : List (Header × Body)}
    (h : self.ledger.RemembersChain E chain)
    (hnone : self.ledger.db.hashPreimage ledgerGenesisHash.hash = none)
    (hrounds : self.ledger.chainView.tipIndex ≤ rounds) (kwargs : Kwargs) :
    (method kwargs self).1 ≠ none ↔
      runtime.Passes E self.ledger (requestsFor E name kwargs) := by
  unfold LedgerService.method at hmethod
  split at hmethod
  case h_11 => cases hmethod
  all_goals rw [← Option.some.inj hmethod]
  case h_2 => exact Method.request_returns_iff kwargs self
  case h_6 => exact Method.request_returns_iff kwargs self
  case h_10 => exact Method.request_returns_iff kwargs self
  -- a query makes no request
  all_goals
    refine iff_of_true ?_ Runtime.passes_nil
    apply Method.query_returns
    intro a
  case h_4 =>
    obtain ⟨r, hr⟩ := h.doGetRecentBlocks_returns hnone hrounds a
    rw [hr]
    exact ⟨_, rfl⟩
  case h_5 =>
    obtain ⟨r, hr⟩ := h.doGetAllBlocks_returns hnone hrounds
    rw [hr]
    exact ⟨_, rfl⟩
  all_goals exact ⟨_, rfl⟩

theorem CallOutcome.of_eq_interrupted_iff
    {text : Exn → Except PyException String}
    {result : Option (Except Exn PyObject)} :
    CallOutcome.of text result = .interrupted ↔ result = none := by
  cases result with
  | none => exact iff_of_true rfl rfl
  | some r =>
      cases r with
      | ok value => exact iff_of_false nofun nofun
      | error e => exact iff_of_false nofun nofun

/-- Handling a message of the ledger server ends, unless it stays at a
breakpoint. -/
theorem ledgerService_invoke_ne_iff {M : Messaging} {self : RunningLedger}
    {chain : List (Header × Body)} (h : self.ledger.RemembersChain E chain)
    (hnone : self.ledger.db.hashPreimage ledgerGenesisHash.hash = none)
    (hrounds : self.ledger.chainView.tipIndex ≤ rounds)
    (items : List (PyObject × PyObject)) :
    ((ledgerService E runtime rounds).api self).invoke M items ≠
        some .interrupted ↔
      runtime.Passes E self.ledger (requestsOf E M (.dict items)) := by
  unfold Api.invoke Service.api ledgerService requestsOf
  dsimp only
  rw [← messageKwargs]
  cases hmethod : LedgerService.method E runtime rounds
      ("do_" ++ M.format (PyObject.get items "c")) with
  | none =>
      cases messageKwargs items with
      | none => exact iff_of_true (fun h => by cases h) Runtime.passes_nil
      | some kwargs =>
          dsimp only
          rw [requestsFor_of_none hmethod]
          exact iff_of_true (fun h => by cases h) Runtime.passes_nil
  | some method =>
      cases messageKwargs items with
      | none => exact iff_of_true (fun h => by cases h) Runtime.passes_nil
      | some kwargs =>
          dsimp only [Option.map_some]
          rw [← LedgerService.method_returns_iff hmethod h hnone hrounds, Ne,
            Option.some.injEq, CallOutcome.of_eq_interrupted_iff]

/-! ## Requests in messages, one after the other

The ledger of a running server is the one that the requests in the handled
messages leave. -/

/-- The requests in the messages that the server has handled. -/
def RemoteSystem.requests {ι : Type} (E : Environment) (M : Messaging)
    (served : List (ι × PyObject)) : List Request :=
  served.flatMap fun entry => requestsOf E M entry.2

theorem RemoteSystem.stateAfter_ledger {M : Messaging} {ι : Type}
    (served : List (ι × PyObject)) :
    ((ledgerService E runtime rounds).stateAfter M RunningLedger.initial
      (served.map Prod.snd)).ledger =
        LedgerAPI.run E (RemoteSystem.requests E M served) := by
  rw [ledgerService_stateAfter, List.flatMap_map]
  rfl

/-! ## Requests leave the chain and the stored blobs behind them -/

namespace LedgerAPI

theorem run_mono (earlier later : List Request) :
    (run E earlier).db.stored ⊆ (run E (earlier ++ later)).db.stored ∧
      (run E earlier).chainView.tipIndex ≤
        (run E (earlier ++ later)).chainView.tipIndex := by
  induction later using List.reverseRecOn with
  | nil =>
      rw [List.append_nil]
      exact ⟨List.Subset.refl _, le_rfl⟩
  | append_singleton later request ih =>
      rw [← List.append_assoc, run_append]
      have hstep := (run_wellFormed (E := E) (earlier ++ later)).step request
      exact ⟨List.Subset.trans ih.1 hstep.2.1, ih.2.trans hstep.2.2⟩

theorem hashPreimage_genesis {requests : List Request}
    (hgenesis : NoIndexHash E (run E requests).db.stored 0) :
    (run E requests).db.hashPreimage ledgerGenesisHash.hash = none := by
  rw [Option.eq_none_iff_forall_ne_some]
  intro blob hblob
  obtain ⟨hhash, hmem⟩ :=
    (run_wellFormed requests).keyed.stdHash_of_hashPreimage E hblob
  rw [ledgerGenesisHash_hash] at hhash
  exact hgenesis blob hmem 0 le_rfl hhash.symm

end LedgerAPI

section Returns

variable {M : Messaging}

/-- The messages are handled in the end, unless one of them stays at a
breakpoint. -/
theorem ledgerService_returns_iff (hE : E.Lawful) (hkey : PlotKeySigns E)
    (requests : List Request) {self : RunningLedger}
    (hself : self.ledger = LedgerAPI.run E requests)
    {messages : List PyObject}
    (hgenesis : NoIndexHash E ((ledgerService E runtime rounds).stateAfter M
      self messages).ledger.db.stored 0)
    (hrounds : ((ledgerService E runtime rounds).stateAfter M self
      messages).ledger.chainView.tipIndex ≤ rounds) :
    (ledgerService E runtime rounds).Returns M self messages ↔
      runtime.Passes E self.ledger (messages.flatMap (requestsOf E M)) := by
  induction messages generalizing self requests with
  | nil => exact iff_of_true trivial Runtime.passes_nil
  | cons message later ih =>
      have hmono := LedgerAPI.run_mono (E := E) requests
        ((message :: later).flatMap (requestsOf E M))
      have hafter : ((ledgerService E runtime rounds).stateAfter M self
          (message :: later)).ledger = LedgerAPI.run E (requests ++
            (message :: later).flatMap (requestsOf E M)) := by
        rw [ledgerService_stateAfter, hself]
        exact List.foldl_append.symm
      rw [← hafter] at hmono
      have hnone : self.ledger.db.hashPreimage ledgerGenesisHash.hash =
          none := by
        rw [hself]
        exact LedgerAPI.hashPreimage_genesis (hgenesis.mono hmono.1 le_rfl)
      have hchain := LedgerAPI.run_remembersChain hE hkey requests
      rw [← hself] at hchain hmono
      have hhandled : (∀ items, message = .dict items →
          ((ledgerService E runtime rounds).api self).invoke M items ≠
            some .interrupted) ↔
          runtime.Passes E self.ledger (requestsOf E M message) := by
        cases message with
        | dict items =>
            rw [← ledgerService_invoke_ne_iff hchain hnone
              (hmono.2.trans hrounds)]
            exact ⟨fun h => h items rfl,
              fun h items' hitems => PyObject.dict.inj hitems ▸ h⟩
        | _ => exact iff_of_true (fun _ => nofun) Runtime.passes_nil
      have hself' : ((ledgerService E runtime rounds).after M self
          message).ledger =
            LedgerAPI.run E (requests ++ requestsOf E M message) := by
        rw [ledgerService_after, hself]
        exact List.foldl_append.symm
      have hlater := ih (requests ++ requestsOf E M message) hself' hgenesis
        hrounds
      rw [List.flatMap_cons, Runtime.passes_append_iff, ← hhandled,
        ← @ledgerService_after E runtime rounds M, ← hlater]
      rfl

end Returns

namespace RemoteSystem

variable {M : Messaging} {ι : Type} {proxies : ι → Prop} [DecidableEq ι]
  {sys : RemoteSystem RunningLedger ι} {c : ι}

/-- The methods have returned for the handled messages unless a request stays at
a breakpoint. -/
theorem served_returns_iff (hE : E.Lawful) (hkey : PlotKeySigns E)
    (hM : M.Lawful)
    (hrun : Run M (ledgerService E runtime rounds) proxies
      (initial RunningLedger.initial) sys)
    (hgenesis : NoIndexHash E sys.state.ledger.db.stored 0)
    (hrounds : sys.state.ledger.chainView.tipIndex ≤ rounds) :
    (ledgerService E runtime rounds).Returns M RunningLedger.initial
        (sys.served.map Prod.snd) ↔
      runtime.Passes E LedgerAPI.initial (requests E M sys.served) := by
  rw [(inv_of_run hM hrun).server.state] at hgenesis hrounds
  rw [ledgerService_returns_iff hE hkey [] rfl hgenesis hrounds,
    List.flatMap_map]
  rfl

end RemoteSystem

/-! ## A reference ledger -/

namespace Reference

open NonceWatcher

def serverRuntime : Runtime where
  ping _ _ := "pong"
  accepted _ := "accepted"
  exception _ _ := .ok "exception"
  breakpoint := none

abbrev ledgerServer : Service RunningLedger :=
  ledgerService environment serverRuntime 1

abbrev RemoteLedgerRun : RemoteSystem RunningLedger ℕ →
    RemoteSystem RunningLedger ℕ → Prop :=
  RemoteSystem.Run cborMessaging ledgerServer fun _ => True

theorem encodes_of_isSome {d : PyObject}
    (h : (xformToCborMessage cborMessaging d).toOption.isSome = true) :
    cborMessaging.Encodes d :=
  (Option.isSome_iff_exists.mp h).imp fun _ => Except.toOption_eq_some_iff.mp

/-- The call of a new client returns something that the client can read. -/
def Returns (s : RunningLedger) (items : List (PyObject × PyObject)) : Bool :=
  match answerOf cborMessaging (PyObject.get items "c")
      ((ledgerServer.api s).invoke cborMessaging items) with
  | .ok ("r", result) =>
      result.transformToStreamable.toOption.isSome &&
        (xformToCborMessage cborMessaging
          (.dict [(.str "r", result), (.str "n", .int 0)])).toOption.isSome
  | _ => false

theorem exists_gets {sys : RemoteSystem RunningLedger ℕ} {c : ℕ}
    (hrun : RemoteLedgerRun (.initial RunningLedger.initial) sys)
    (hserving : sys.serving = true)
    (hnew : sys.connections c = Connection.initial) {method : String}
    {kwargs : Kwargs} {items : List (PyObject × PyObject)}
    (hmessage : (callMessage method 0 kwargs).transformToStreamable =
      .ok (.dict items))
    (hcall : (xformToCborMessage cborMessaging
      (callMessage method 0 kwargs)).toOption.isSome = true)
    (hreturns : Returns sys.state items = true) :
    ∃ sys' between value, RemoteLedgerRun sys sys' ∧ sys'.serving = true ∧
      sys'.state = ledgerServer.after cborMessaging sys.state (.dict items) ∧
      sys'.served = sys.served ++ [(c, .dict items)] ∧
      (∀ c' ≠ c, sys'.connections c' = sys.connections c') ∧
      (sys'.connections c).Gets cborMessaging between method kwargs
        (.value value) := by
  unfold Returns at hreturns
  split at hreturns
  next result hanswer =>
      rw [Bool.and_eq_true, Option.isSome_iff_exists] at hreturns
      obtain ⟨⟨value, hvalue⟩, hencoded⟩ := hreturns
      have hunserved := RemoteSystem.unserved_of_initial
        (M := cborMessaging) sys hnew
      obtain ⟨sys', between, hlater, hserving', hstate, hserved, hothers,
          hgets⟩ :=
        RemoteSystem.exists_gets cborMessaging_lawful cborMessaging_dropsItems
          hrun trivial hserving (by rw [hnew]; rfl)
          (by rw [hunserved]; trivial) (by rw [hnew]; rfl) hmessage
          (encodes_of_isSome hcall) (by rw [hunserved]; exact hanswer)
          (Except.toOption_eq_some_iff.mp hvalue) (encodes_of_isSome hencoded)
      rw [hunserved] at hstate hserved
      exact ⟨sys', _, value, hlater, hserving', hstate, hserved, hothers, hgets⟩
  next => cases hreturns

def blockHashes : Kwargs :=
  [("coinbase_puzzle_hash", .bytes (SizedBytes.fill 32 3).1),
    ("fees_puzzle_hash", .bytes (SizedBytes.fill 32 4).1)]

/-- The message of `next_block(**blockHashes)`. -/
def blockItems : List (PyObject × PyObject) :=
  [(.str "c", .str "next_block"), (.str "n", .int 0),
    (.str "q", .dict (blockHashes.map fun arg => (.str arg.1, arg.2)))]

/-- The first client gets a block. -/
theorem exists_block :
    ∃ sys before value, RemoteLedgerRun (.initial RunningLedger.initial) sys ∧
      sys.serving = true ∧
      sys.state = ledgerServer.after cborMessaging RunningLedger.initial
        (.dict blockItems) ∧
      sys.served = [(0, .dict blockItems)] ∧
      (∀ c ≠ 0, sys.connections c = Connection.initial) ∧
      (sys.connections 0).Gets cborMessaging before "next_block" blockHashes
        (.value value) :=
  exists_gets .refl rfl rfl rfl (by decide +kernel) (by decide +kernel)

/-- A bundle that spends a coin which no storage knows. -/
def strangeBlob : Bytes :=
  ((spendBundle ⟨SizedBytes.fill 32 7, puzzleHash [], 0⟩ []).stream
    environment).toOption.getD []

def strangeTx : Kwargs :=
  [("tx", .bytes strangeBlob)]

/-- The message of `push_tx(**strangeTx)`. -/
def strangeItems : List (PyObject × PyObject) :=
  [(.str "c", .str "push_tx"), (.str "n", .int 0),
    (.str "q", .dict (strangeTx.map fun arg => (.str arg.1, arg.2)))]

/-- The first client has asked for a block. -/
def blockCalled : RemoteSystem RunningLedger ℕ :=
  (RemoteSystem.initial RunningLedger.initial).update 0
    (Connection.initial.act cborMessaging (.invoke "next_block" blockHashes))

end Reference

end LedgerSim
