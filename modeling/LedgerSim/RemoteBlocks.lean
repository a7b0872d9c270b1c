import LedgerSim.ChainCommitment
import LedgerSim.RemoteLedger

/-!
# What callers learn about the chain

A call of `next_block` gets the block that its own message has put on the
chain, a call of `get_tip` the tip that the messages before it have left, both
as objects that the client's transformations have parsed.  Who has got a block
knows that everybody who asks for the tip from then on gets one behind it, and
on an open connection everybody can ask.
-/

namespace LedgerSim

open NonceWatcher

variable {E : Environment} {M : Messaging} {runtime : Runtime} {rounds : ℕ}

/-! ## Results of calls -/

/-- `"do_%s" % c` of a string. -/
def Messaging.FormatsNames (M : Messaging) : Prop :=
  ∀ name, M.format (.str name) = name

theorem returned_of_answerOf {c : PyObject} {outcome : Option CallOutcome}
    {answer : String × PyObject} (h : answerOf M c outcome = .ok answer)
    (hkey : answer.1 ≠ "e") : outcome = some (.returned answer.2) := by
  cases outcome with
  | none =>
      rw [← Except.ok.inj h] at hkey
      exact absurd rfl hkey
  | some outcome =>
      cases outcome with
      | returned r => rw [← Except.ok.inj h]
      | interrupted => cases h
      | raised text =>
          cases text with
          | error kind => cases h
          | ok text =>
              rw [← Except.ok.inj h] at hkey
              exact absurd rfl hkey

/-- The message of a call that has a result was handed to a method, and the
method has returned. -/
theorem Answers.returned {self : RunningLedger} (hformat : M.FormatsNames)
    {name : String} {nonce : ℕ} {kwargs : Kwargs} {message : PyObject}
    (hmessage : (callMessage name nonce kwargs).transformToStreamable =
      .ok message) {value : PyObject}
    (h : Answers M ((ledgerService E runtime rounds).api self) message
      (.value value)) :
    ∃ items method received result,
      message = .dict items ∧ messageKwargs items = some received ∧
        LedgerService.method E runtime rounds ("do_" ++ name) = some method ∧
        requestsOf E M message = requestsFor E ("do_" ++ name) received ∧
        (method received self).1 = some (.ok result) ∧
        result.transformToStreamable = .ok value := by
  obtain ⟨items, answer, w, rfl, hanswer, hw, hreply⟩ := h
  obtain ⟨q, -, hitems⟩ := callMessage_streamable_iff.mp hmessage
  have hcommand : PyObject.get items "c" = .str name := by
    rw [PyObject.dict.inj hitems]
    simp [PyObject.get, PyObject.key]
  unfold replyWith at hreply
  split_ifs at hreply with hkey
  have hreturned := returned_of_answerOf hanswer hkey
  rw [Reply.value.inj hreply]
  unfold Api.invoke Service.api at hreturned
  dsimp only at hreturned
  rw [hcommand, hformat, ← messageKwargs] at hreturned
  unfold requestsOf
  dsimp only
  rw [hcommand, hformat]
  unfold ledgerService at hreturned
  cases hmethod : LedgerService.method E runtime rounds ("do_" ++ name) with
  | none =>
      rw [hmethod] at hreturned
      cases hreturned
  | some method =>
      rw [hmethod] at hreturned
      simp only [Option.map_some, Option.some.injEq] at hreturned
      cases hkwargs : messageKwargs items with
      | none =>
          rw [hkwargs] at hreturned
          cases hreturned
      | some received =>
          rw [hkwargs] at hreturned
          dsimp only at hreturned
          refine ⟨items, method, received, answer.2, rfl, hkwargs, rfl, rfl, ?_,
            hw⟩
          cases hresult : (method received self).1 with
          | none =>
              rw [hresult] at hreturned
              cases hreturned
          | some r =>
              rw [hresult] at hreturned
              cases r with
              | error e => cases hreturned
              | ok result => rw [← CallOutcome.returned.inj hreturned]

/-- A call for which a method returns is answered with what it returns. -/
theorem answerOf_returned {self : RunningLedger} (hformat : M.FormatsNames)
    {name : String} {nonce : ℕ} {kwargs : Kwargs}
    {items : List (PyObject × PyObject)}
    (hmessage : (callMessage name nonce kwargs).transformToStreamable =
      .ok (.dict items)) {received : Kwargs}
    (hkwargs : messageKwargs items = some received) {method : Method}
    (hmethod : LedgerService.method E runtime rounds ("do_" ++ name) =
      some method) {result : PyObject}
    (hresult : (method received self).1 = some (.ok result)) :
    answerOf M (PyObject.get items "c")
      (((ledgerService E runtime rounds).api self).invoke M items) =
        .ok ("r", result) := by
  obtain ⟨q, -, hitems⟩ := callMessage_streamable_iff.mp hmessage
  have hcommand : PyObject.get items "c" = .str name := by
    rw [PyObject.dict.inj hitems]
    simp [PyObject.get, PyObject.key]
  unfold Api.invoke Service.api ledgerService
  dsimp only
  rw [hcommand, hformat, ← messageKwargs, hmethod, hkwargs]
  simp only [Option.map_some, hresult, CallOutcome.of, answerOf]

theorem Method.request_returned {α : Type} {args : Kwargs → Except Exn α}
    {make : α → Request} {kwargs : Kwargs} {self : RunningLedger}
    {result : PyObject}
    (h : (Method.request E runtime args make kwargs self).1 =
      some (.ok result)) :
    ∃ a response, args kwargs = .ok a ∧
      ((LedgerAPI.handle E (make a)).run self.ledger).1 = .ok response ∧
      answer E runtime response = result := by
  unfold Method.request at h
  cases hargs : args kwargs with
  | error e =>
      rw [hargs] at h
      cases h
  | ok a =>
      rw [hargs] at h
      obtain ⟨response, hresponse, hanswer⟩ :=
        Except.map_eq_ok_iff.mp (Runtime.pass_eq_ok_iff.mp h)
      exact ⟨a, response, rfl, hresponse, hanswer⟩

theorem Method.query_returned {α : Type} {args : Kwargs → Except Exn α}
    {f : α → RunningLedger → Option (Except Exn PyObject)} {kwargs : Kwargs}
    {self : RunningLedger} {result : PyObject}
    (h : (Method.query args f kwargs self).1 = some (.ok result)) :
    ∃ a, args kwargs = .ok a ∧ f a self = some (.ok result) := by
  unfold Method.query at h
  cases hargs : args kwargs with
  | error e =>
      rw [hargs] at h
      cases h
  | ok a =>
      rw [hargs] at h
      exact ⟨a, rfl, h⟩

/-! ## Blocks as they are returned -/

namespace LedgerAPI

/-- The block that a request for one returns is the farmed one, with its
body. -/
theorem nextBlock_farmed {self : LedgerAPI} (hself : self.WellFormed E)
    {coinbasePuzzleHash feesPuzzleHash : Bytes32} {response : Response}
    (hresponse : ((handle E (.nextBlock coinbasePuzzleHash
      feesPuzzleHash)).run self).1 = .ok response) :
    ∃ f : Farmed E self.chainView self.spendBundles coinbasePuzzleHash
        feesPuzzleHash self.now,
      response = .block f.header (some f.body) := by
  unfold handle at hresponse
  dsimp only at hresponse
  rw [doNextBlock_run] at hresponse
  unfold attempt at hresponse
  rw [hself.unspentDb] at hresponse
  split at hresponse
  next => cases hresponse
  next newView heap hattempt =>
      obtain ⟨f, hashPreimage, hextend⟩ := newChainView_ok hself.cls hattempt
      obtain ⟨blob, -, hview, -⟩ := (ChainView.extend_eq_ok_iff E).mp hextend
      rw [hview] at hresponse
      exact ⟨f, (Except.ok.inj hresponse).symm⟩

/-- The farmed block as a part of a history. -/
def farmedBlock {chainView : ChainView} {spendBundles : List SpendBundle}
    {coinbasePuzzleHash feesPuzzleHash : Bytes32} {now : ℕ}
    (f : Farmed E chainView spendBundles coinbasePuzzleHash feesPuzzleHash
      now) : HistoryBlock E :=
  ⟨f.header, f.body, serverProofOfSpace E, f.headerBlob, f.bodyBlob,
    f.header_bytes, f.body_bytes, rfl, rfl⟩

variable (E) in
/-- The chain is a history that the hash commits to. -/
def CommitsTo (tip : Bytes32) (chain : List (Header × Body)) : Prop :=
  ∃ history : List (HistoryBlock E),
    history.map (fun block => (block.header, block.body)) = chain.reverse ∧
      HistoryBlock.History ledgerGenesisHash.hash history tip

theorem CommitsTo.mined {self : LedgerAPI} {chain : List (Header × Body)}
    (h : CommitsTo E self.chainView.tipHash.hash chain)
    (hself : self.WellFormed E) {coinbasePuzzleHash feesPuzzleHash : Bytes32}
    {view : ChainView} {heap : Heap} (hattempt : self.attempt E
      self.spendBundles coinbasePuzzleHash feesPuzzleHash = (.ok view, heap)) :
    CommitsTo E view.tipHash.hash (chain ++ Response.newBlock
      (blockResponse E view (heap self.storage))) := by
  unfold attempt at hattempt
  rw [hself.unspentDb] at hattempt
  obtain ⟨f, hashPreimage, hextend⟩ := newChainView_ok hself.cls hattempt
  obtain ⟨blob, hblob, rfl, -⟩ := (ChainView.extend_eq_ok_iff E).mp hextend
  obtain rfl : blob = f.headerBlob :=
    Except.ok.inj (hblob.symm.trans f.header_bytes)
  obtain ⟨history, hblocks, hhistory⟩ := h
  refine ⟨farmedBlock f :: history, ?_, rfl, hhistory⟩
  rw [List.map_cons, hblocks, List.reverse_append]
  rfl

theorem run_commitsTo (requests : List Request) :
    CommitsTo E (run E requests).chainView.tipHash.hash
      (blocks E requests) := by
  induction requests using List.reverseRecOn with
  | nil => exact ⟨[], rfl, rfl⟩
  | append_singleton requests request ih =>
      rw [run_append, blocks_append]
      have hcases := handle_cases E (run E requests) request
      have hnone := List.append_nil (blocks E requests)
      unfold newBlock
      generalize ((handle E request).run (run E requests)).1 = response
        at hcases ⊢
      generalize LedgerAPI.step E (run E requests) request = next at hcases ⊢
      cases hcases with
      | unsigned _ => exact hnone.symm ▸ ih
      | bundleRefused _ _ => exact hnone.symm ▸ ih
      | pushed _ _ => exact hnone.symm ▸ ih
      | blockRefused _ => exact hnone.symm ▸ ih
      | mined hattempt => exact ih.mined (run_wellFormed requests) hattempt
      | skipped ms => exact hnone.symm ▸ ih

/-- A request comes between the blocks of those before it and those after. -/
theorem blocks_split (earlier : List Request) (request : Request)
    (later : List Request) :
    ∃ after, blocks E (earlier ++ request :: later) =
      blocks E earlier ++ newBlock E (run E earlier) request ++ after := by
  induction later using List.reverseRecOn with
  | nil =>
      refine ⟨[], ?_⟩
      rw [blocks_append, List.append_nil]
  | append_singleton later last ih =>
      obtain ⟨after, hafter⟩ := ih
      refine ⟨after ++ newBlock E (run E (earlier ++ request :: later)) last,
        ?_⟩
      rw [← List.cons_append, ← List.append_assoc, blocks_append, hafter,
        List.append_assoc]

theorem blocks_prefix (earlier later : List Request) :
    blocks E earlier <+: blocks E (earlier ++ later) := by
  cases later with
  | nil => rw [List.append_nil]
  | cons request later =>
      obtain ⟨after, hafter⟩ := blocks_split (E := E) earlier request later
      rw [hafter, List.append_assoc]
      exact List.prefix_append _ _

end LedgerAPI

/-! ## Transformed results -/

/-- The transformation of a map with two streamable items. -/
theorem fromObject_of_undoes {α : Type} {parse : Parser α} {view : α → α}
    {stream : α → Except Exn Bytes} (h : Codec.Undoes parse view stream)
    {x : α} {b : Bytes} (hx : stream x = .ok b) :
    parse.fromObject (.bytes b) = .ok (view x) := by
  have hparse := h x b hx []
  rw [List.append_nil] at hparse
  unfold Parser.fromObject Parser.fromBytes
  change (parse b).map Prod.fst = _
  rw [hparse]
  rfl

/-- What the caller of `next_block` gets for a block. -/
def blockValue (header : Header) (body : Body) : RemoteValue :=
  .dict [(.str "header", .header header.uncached), (.str "body", .body body)]

theorem xformDict_two {items : List (PyObject × PyObject)} {k k' : String}
    {parse parse' : PyObject → Except Exn RemoteField} {v v' : PyObject}
    {field field' : RemoteField}
    (hv : (PyObject.dict items).getItem k = .ok v) (hfield : parse v = .ok field)
    (hv' : (PyObject.dict items).getItem k' = .ok v')
    (hfield' : parse' v' = .ok field') :
    xformDict [(k, parse), (k', parse')] (.value (.dict items)) =
      .ok (.dict (setField (setField
        (items.map fun item => (item.1, .object item.2)) k field) k' field')) := by
  unfold xformDict Reply.toDict Reply.getItem
  simp only [PyObject.toDict, Except.mapError, Except.ok_bind, List.foldlM_cons,
    List.foldlM_nil, hv, hfield, hv', hfield']
  rfl

theorem transformed_of_signature {method : String}
    {transformation : Transformation}
    (h : remoteSignatures E method = some transformation) (reply : Reply) :
    transformed E method reply = .of (transformation reply) := by
  unfold transformed
  rw [h]

theorem transformed_nextBlock (hsexp : E.SexpRoundTrip) {header : Header}
    {body : Body} {headerBlob bodyBlob : Bytes}
    (hheader : header.bytes = .ok headerBlob)
    (hbody : body.bytes E = .ok bodyBlob) {value : PyObject}
    (hvalue : (answer E runtime (.block header (some body))).transformToStreamable =
      .ok value) :
    transformed E "next_block" (.value value) =
      .returned (blockValue header body) := by
  have hblock : (PyObject.dict [(.str "header", .ofStream header.bytes),
      (.str "body", .ofStream (body.bytes E))]).transformToStreamable =
        .ok value := hvalue
  rw [hheader, hbody] at hblock
  obtain ⟨w, w', hw, hw', rfl⟩ :=
    (PyObject.transformToStreamable_two_iff (by decide)).mp hblock
  obtain rfl : .bytes headerBlob = w := Except.ok.inj hw
  obtain rfl : .bytes bodyBlob = w' := Except.ok.inj hw'
  have hheader : headerFromBytes (.bytes headerBlob) =
      .ok (.header header.uncached) :=
    Except.bind_eq_ok (fromObject_of_undoes undoes_header hheader) rfl
  have hbody : bodyFromBytes E (.bytes bodyBlob) = .ok (.body body) :=
    Except.bind_eq_ok (fromObject_of_undoes (undoes_body hsexp) hbody) rfl
  rw [transformed_of_signature rfl, xformDict_two rfl hheader rfl hbody]
  simp [setField, PyObject.key, blockValue, InvokeOutcome.of]

/-- What the caller of `get_tip` gets. -/
def tipValue (tip : Bytes32) (index : ℕ) : RemoteValue :=
  .dict [(.str "tip_hash", .headerHash ⟨tip, none⟩),
    (.str "tip_index", .object (.int index)),
    (.str "genesis_hash", .headerHash ledgerGenesisHash)]

theorem transformed_getTip {self : RunningLedger}
    (hgenesis : self.ledger.chainView.genesisHash = ledgerGenesisHash)
    {result value : PyObject}
    (hresult : (LedgerService.doGetTip [] self).1 = some (.ok result))
    (hvalue : result.transformToStreamable = .ok value) :
    transformed E "get_tip" (.value value) = .returned (tipValue
      self.ledger.chainView.tipHash.hash self.ledger.chainView.tipIndex) := by
  have hhash : ∀ hash : Bytes32, headerHashFromBytes (.bytes hash.1) =
      .ok (.headerHash ⟨hash, none⟩) := fun hash =>
    Except.bind_eq_ok (fromObject_of_undoes (undoes_sizedBytes 32) rfl) rfl
  rw [← Except.ok.inj (Option.some.inj hresult)] at hvalue
  rw [← Except.ok.inj hvalue, transformed_of_signature rfl,
    xformDict_two rfl (hhash _) rfl (hhash _), hgenesis]
  simp [setField, PyObject.key, InvokeOutcome.of, tipValue, ledgerGenesisHash]

/-! ## In any run of the system -/

namespace RemoteSystem

variable {ι : Type}

theorem requests_prefix {served served' : List (ι × PyObject)}
    (h : served <+: served') :
    requests E M served <+: requests E M served' := by
  obtain ⟨more, rfl⟩ := h
  unfold requests
  rw [List.flatMap_append]
  exact List.prefix_append _ _

theorem blocks_prefix_of_served {served served' : List (ι × PyObject)}
    (h : served <+: served') :
    LedgerAPI.blocks E (requests E M served) <+:
      LedgerAPI.blocks E (requests E M served') := by
  obtain ⟨more, hmore⟩ := requests_prefix (E := E) (M := M) h
  rw [← hmore]
  exact LedgerAPI.blocks_prefix _ _

variable {proxies : ι → Prop} [DecidableEq ι]
  {sys sys' : RemoteSystem RunningLedger ι} {c c' : ι}
  {before : List ClientEvent} {kwargs : Kwargs} {value : PyObject}

/-- A call that has a result, in the history. -/
theorem exists_returned (hM : M.Lawful) (hformat : M.FormatsNames)
    (hrun : Run M (ledgerService E runtime rounds) proxies
      (initial RunningLedger.initial) sys) (hproxy : proxies c)
    {name : String}
    (hgets : (sys.connections c).Gets M before name kwargs (.value value)) :
    ∃ earlier items after server method received result,
      sys.served = earlier ++ (c, .dict items) :: after ∧
      (callMessage name (NonceWatcher.run M before).initialNonce
        kwargs).transformToStreamable = .ok (.dict items) ∧
      messageKwargs items = some received ∧
      server.ledger = LedgerAPI.run E (requests E M earlier) ∧
      LedgerService.method E runtime rounds ("do_" ++ name) = some method ∧
      requestsOf E M (.dict items) = requestsFor E ("do_" ++ name) received ∧
      (method received server).1 = some (.ok result) ∧
      result.transformToStreamable = .ok value := by
  obtain ⟨earlier, message, after, hserved, hmessage, -, hanswers⟩ :=
    (inv_of_run hM hrun).answered hM hproxy hgets
  obtain ⟨items, method, received, result, rfl, hkwargs, hmethod, hrequests,
      hresult, hvalue⟩ := hanswers.returned hformat hmessage
  exact ⟨earlier, items, after, _, method, received, result, hserved, hmessage,
    hkwargs, stateAfter_ledger earlier, hmethod, hrequests, hresult, hvalue⟩

/-- Whoever calls `next_block` gets the block that the call's own message has
put on the chain, which pays to the puzzle hashes in the message. -/
theorem next_block_answered (hE : E.Lawful) (hkey : PlotKeySigns E)
    (hsexp : E.SexpRoundTrip) (hM : M.Lawful) (hformat : M.FormatsNames)
    (hrun : Run M (ledgerService E runtime rounds) proxies
      (initial RunningLedger.initial) sys) (hproxy : proxies c)
    (hgets : (sys.connections c).Gets M before "next_block" kwargs
      (.value value)) :
    ∃ earlier message after coinbasePuzzleHash feesPuzzleHash header body later,
      sys.served = earlier ++ (c, message) :: after ∧
      (callMessage "next_block" (NonceWatcher.run M before).initialNonce
        kwargs).transformToStreamable = .ok message ∧
      requestsOf E M message =
        [.nextBlock coinbasePuzzleHash feesPuzzleHash] ∧
      LedgerAPI.blocks E (requests E M sys.served) =
        LedgerAPI.blocks E (requests E M earlier) ++
          (header, body) :: later ∧
      transformed E "next_block" (.value value) =
        .returned (blockValue header body) ∧
      body.coinbaseCoin = rewardCoin
        ((LedgerAPI.blocks E (requests E M earlier)).length + 1)
        coinbasePuzzleHash blockReward ∧
      body.feesCoin.puzzleHash = feesPuzzleHash := by
  obtain ⟨earlier, items, after, server, method, received, result, hserved,
      hmessage, -, hledger, hmethod, hrequests, hresult, hvalue⟩ :=
    exists_returned hM hformat hrun hproxy hgets
  obtain rfl : LedgerService.doNextBlock E runtime = method :=
    Option.some.inj hmethod
  obtain ⟨hashes, response, hargs, hresponse, rfl⟩ :=
    Method.request_returned hresult
  rw [hledger] at hresponse
  have hrequest : requestsOf E M (.dict items) =
      [.nextBlock hashes.1 hashes.2] := by
    rw [hrequests]
    change (nextBlockArgs received).toOption.toList.map _ = _
    rw [hargs]
    rfl
  obtain ⟨f, rfl⟩ :=
    LedgerAPI.nextBlock_farmed (LedgerAPI.run_wellFormed _) hresponse
  have hnew : LedgerAPI.newBlock E (LedgerAPI.run E (requests E M earlier))
      (.nextBlock hashes.1 hashes.2) = [(f.header, f.body)] := by
    unfold LedgerAPI.newBlock
    rw [hresponse]
    rfl
  obtain ⟨later, hblocks⟩ := LedgerAPI.blocks_split (E := E)
    (requests E M earlier) (.nextBlock hashes.1 hashes.2) (requests E M after)
  have hsplit : requests E M sys.served = requests E M earlier ++
      .nextBlock hashes.1 hashes.2 :: requests E M after := by
    unfold requests
    rw [hserved, List.flatMap_append, List.flatMap_cons]
    dsimp only
    rw [hrequest]
    rfl
  refine ⟨earlier, _, after, hashes.1, hashes.2, f.header, f.body, later,
    hserved, hmessage, hrequest, ?_, ?_, ?_, rfl⟩
  · rw [hsplit, hblocks, hnew, List.append_assoc]
    rfl
  · exact transformed_nextBlock hsexp f.header_bytes f.body_bytes hvalue
  · rw [(LedgerAPI.run_remembersChain hE hkey _).length]
    rfl

/-- The tip that a caller of `get_tip` gets commits to the blocks that the
messages before the call's own have put on the chain. -/
theorem get_tip_answered (hE : E.Lawful) (hkey : PlotKeySigns E) (hM : M.Lawful)
    (hformat : M.FormatsNames)
    (hrun : Run M (ledgerService E runtime rounds) proxies
      (initial RunningLedger.initial) sys) (hproxy : proxies c)
    (hgets : (sys.connections c).Gets M before "get_tip" kwargs
      (.value value)) :
    ∃ earlier message after tip,
      sys.served = earlier ++ (c, message) :: after ∧
      (callMessage "get_tip" (NonceWatcher.run M before).initialNonce
        kwargs).transformToStreamable = .ok message ∧
      transformed E "get_tip" (.value value) = .returned (tipValue tip
        (LedgerAPI.blocks E (requests E M earlier)).length) ∧
      LedgerAPI.CommitsTo E tip
        (LedgerAPI.blocks E (requests E M earlier)) := by
  obtain ⟨earlier, items, after, server, method, received, result, hserved,
      hmessage, -, hledger, hmethod, -, hresult, hvalue⟩ :=
    exists_returned hM hformat hrun hproxy hgets
  obtain rfl : LedgerService.doGetTip = method := Option.some.inj hmethod
  obtain ⟨-, -, htip⟩ := Method.query_returned hresult
  have hwf := LedgerAPI.run_wellFormed (E := E) (requests E M earlier)
  have hcommits := LedgerAPI.run_commitsTo (E := E) (requests E M earlier)
  refine ⟨earlier, _, after, _, hserved, hmessage, ?_, hcommits⟩
  rw [(LedgerAPI.run_remembersChain hE hkey _).length]
  rw [← hledger] at hwf ⊢
  exact transformed_getTip hwf.genesisHash htip hvalue

variable (M) in
/-- A call can be made and answered: the server goes on, the connection is
open, no call that is on its way fails to return, and the call and its result
in the state that those leave can be sent. -/
structure Askable {σ : Type} (service : Service σ) (sys : RemoteSystem σ ι)
    (c : ι) (method : String) (kwargs : Kwargs) (result : σ → PyObject) :
    Prop where
  serving : sys.serving = true
  isOpen : (sys.connections c).isOpen = true
  returns : service.Returns M sys.state (sys.unserved M c)
  call : M.Encodes (callMessage method
    (NonceWatcher.run M (sys.connections c).events).initialNonce kwargs)
  result : M.Encodes (.dict [
    (.str "r", result (service.stateAfter M sys.state (sys.unserved M c))),
    (.str "n", .int
      (NonceWatcher.run M (sys.connections c).events).initialNonce)])

/-- The call that can be made gets what the method returns. -/
theorem Askable.exists_gets (hM : M.Lawful) (hdrops : M.DropsItems)
    (hformat : M.FormatsNames) {name : String} {result : RunningLedger → PyObject}
    (h : Askable M (ledgerService E runtime rounds) sys c name kwargs result)
    (hrun : Run M (ledgerService E runtime rounds) proxies
      (initial RunningLedger.initial) sys) (hproxy : proxies c)
    {items : List (PyObject × PyObject)}
    (hmessage : (callMessage name (NonceWatcher.run M
      (sys.connections c).events).initialNonce kwargs).transformToStreamable =
        .ok (.dict items)) {received : Kwargs}
    (hkwargs : messageKwargs items = some received) {method : Method}
    (hmethod : LedgerService.method E runtime rounds ("do_" ++ name) =
      some method)
    (hresult : ∀ self, (method received self).1 = some (.ok (result self))) :
    ∃ sys' between value, Run M (ledgerService E runtime rounds) proxies sys sys' ∧
      (sys'.connections c).Gets M ((sys.connections c).events ++ between) name
        kwargs (.value value) := by
  have hanswer := answerOf_returned hformat hmessage hkwargs hmethod
    (hresult ((ledgerService E runtime rounds).stateAfter M sys.state
      (sys.unserved M c)))
  obtain ⟨frame, hframe⟩ := h.result
  obtain ⟨_, _, hstreamable, -, -⟩ := xformToCborMessage_eq_ok_iff.mp hframe
  obtain ⟨value, _, hvalue, -, -⟩ :=
    (PyObject.transformToStreamable_two_iff (by decide)).mp hstreamable
  obtain ⟨sys', between, hlater, -, -, -, -, hgets⟩ :=
    RemoteSystem.exists_gets hM hdrops hrun hproxy h.serving h.isOpen h.returns
      rfl hmessage h.call hanswer hvalue ⟨frame, hframe⟩
  exact ⟨sys', between, value, hlater, hgets⟩

/-- What `do_get_tip` returns. -/
def tipResult (self : RunningLedger) : PyObject :=
  .dict [(.str "tip_hash", .bytes self.ledger.chainView.tipHash.hash.1),
    (.str "tip_index", .int self.ledger.chainView.tipIndex),
    (.str "genesis_hash", .bytes self.ledger.chainView.genesisHash.hash.1)]

theorem exists_tip (hM : M.Lawful) (hdrops : M.DropsItems)
    (hformat : M.FormatsNames)
    (hrun : Run M (ledgerService E runtime rounds) proxies
      (initial RunningLedger.initial) sys) (hproxy : proxies c)
    (h : Askable M (ledgerService E runtime rounds) sys c "get_tip" []
      tipResult) :
    ∃ sys' between value, Run M (ledgerService E runtime rounds) proxies sys sys' ∧
      (sys'.connections c).Gets M ((sys.connections c).events ++ between)
        "get_tip" [] (.value value) := by
  have hmessage := (@callMessage_streamable_iff "get_tip" (NonceWatcher.run M
    (sys.connections c).events).initialNonce [] _).mpr ⟨.dict [], rfl, rfl⟩
  exact h.exists_gets hM hdrops hformat hrun hproxy hmessage rfl rfl
    fun _ => rfl

/-- A block that some caller has got is never lost: whoever asks for the tip
from then on gets one that commits to a chain with the block in it, and on an
open connection the tip can be asked for. -/
theorem tip_after_block (hE : E.Lawful) (hkey : PlotKeySigns E)
    (hsexp : E.SexpRoundTrip) (hM : M.Lawful) (hdrops : M.DropsItems)
    (hformat : M.FormatsNames)
    (hrun : Run M (ledgerService E runtime rounds) proxies
      (initial RunningLedger.initial) sys) (hproxy : proxies c)
    (hblock : (sys.connections c).Gets M before "next_block" kwargs
      (.value value)) :
    ∃ older header body,
      transformed E "next_block" (.value value) =
        .returned (blockValue header body) ∧
      ∀ sys', Run M (ledgerService E runtime rounds) proxies sys sys' →
        ∀ c', proxies c' →
          (∀ between kwargs' value',
            (sys'.connections c').Gets M
                ((sys.connections c').events ++ between) "get_tip" kwargs'
                (.value value') →
              ∃ newer tip,
                transformed E "get_tip" (.value value') = .returned
                  (tipValue tip (older ++ (header, body) :: newer).length) ∧
                LedgerAPI.CommitsTo E tip
                  (older ++ (header, body) :: newer) ∧
                older ++ (header, body) :: newer <+:
                  LedgerAPI.blocks E (requests E M sys'.served)) ∧
          (Askable M (ledgerService E runtime rounds) sys' c' "get_tip" []
              tipResult →
            ∃ sys'' between value',
              Run M (ledgerService E runtime rounds) proxies sys' sys'' ∧
              (sys''.connections c').Gets M
                ((sys.connections c').events ++ between) "get_tip" []
                (.value value')) := by
  obtain ⟨earlier, -, -, -, -, header, body, later, -, -, -, hchain, hgot, -⟩ :=
    next_block_answered hE hkey hsexp hM hformat hrun hproxy hblock
  refine ⟨LedgerAPI.blocks E (requests E M earlier), header, body, hgot, ?_⟩
  intro sys' hlater c' hproxy'
  constructor
  · intro between kwargs' value' htip
    obtain ⟨earlier', message, after, tip, hserved, hmessage, hgot', hcommits⟩ :=
      get_tip_answered hE hkey hM hformat (hrun.trans hlater) hproxy' htip
    -- the block was put on the chain before the tip was asked for
    have hbefore := (inv_of_run hM hrun).served_before hlater hproxy' hmessage
      hserved
    obtain ⟨more, hmore⟩ :=
      blocks_prefix_of_served (E := E) (M := M) hbefore
    have hserved' : earlier' <+: sys'.served := ⟨_, hserved.symm⟩
    have hon := blocks_prefix_of_served (E := E) (M := M) hserved'
    rw [← hmore, hchain, List.append_assoc, List.cons_append]
      at hgot' hcommits hon
    exact ⟨later ++ more, tip, hgot', hcommits, hon⟩
  · intro hasks
    obtain ⟨sys'', between, value', hlater', hgets⟩ :=
      exists_tip hM hdrops hformat (hrun.trans hlater) hproxy' hasks
    obtain ⟨since, hsince⟩ := events_prefix_of_run hlater c'
    rw [← hsince, List.append_assoc] at hgets
    exact ⟨sys'', since ++ between, value', hlater', hgets⟩

open Reference in
/-- Another client than the one that has got the first block asks for the
tip. -/
theorem tip_after_block_other :
    ∃ sys sys' : RemoteSystem RunningLedger ℕ, ∃ before before' value value',
      ∃ older header body newer tip, RemoteLedgerRun sys sys' ∧
      (sys.connections 0).Gets cborMessaging before "next_block" blockHashes
        (.value value) ∧
      (sys'.connections 1).Gets cborMessaging before' "get_tip" []
        (.value value') ∧
      transformed environment "next_block" (.value value) =
        .returned (blockValue header body) ∧
      transformed environment "get_tip" (.value value') = .returned
        (tipValue tip (older ++ (header, body) :: newer).length) ∧
      LedgerAPI.CommitsTo environment tip (older ++ (header, body) :: newer) ∧
      older ++ (header, body) :: newer <+: LedgerAPI.blocks environment
        (requests environment cborMessaging sys'.served) := by
  obtain ⟨sys, before, value, hrun, hserving, hstate, -, hothers, hblock⟩ :=
    exists_block
  obtain ⟨older, header, body, hgot, hafter⟩ :=
    tip_after_block environment_lawful plotKeySigns environment_sexpRoundTrip
      cborMessaging_lawful cborMessaging_dropsItems (fun _ => rfl) hrun trivial
      hblock
  have hnew := hothers 1 (by decide)
  have hunserved := unserved_of_initial (M := cborMessaging) sys hnew
  have hasks : Askable cborMessaging ledgerServer sys 1 "get_tip" []
      tipResult := by
    refine ⟨hserving, by rw [hnew]; rfl, by rw [hunserved]; trivial, ?_, ?_⟩
    · rw [hnew]
      exact ⟨_, rfl⟩
    · rw [hunserved, hnew, hstate]
      exact encodes_of_isSome (by decide +kernel)
  obtain ⟨sys', between, value', hlater, htip⟩ :=
    (hafter sys .refl 1 trivial).2 hasks
  obtain ⟨newer, tip, hgot', hcommits, hon⟩ :=
    (hafter sys' hlater 1 trivial).1 between [] value' htip
  exact ⟨sys, sys', before, _, value, value', older, header, body, newer, tip,
    hlater, hblock, htip, hgot, hgot', hcommits, hon⟩

end RemoteSystem

end LedgerSim
