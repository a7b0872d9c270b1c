import LedgerSim.BlockQueries
import LedgerSim.Refusal
import LedgerSim.RemoteCalls
import LedgerSim.RemoteHistory

/-!
# The ledger behind the server

The methods of a `LedgerAPI` as the server's loop calls them: with the keyword
arguments of a message, some of which `api_request` transforms, and with values
for its answers that can be streamed.  The ledger of a running system is the one
that the requests in the messages leave, one after the other.
-/

namespace LedgerSim

/-! ## Arguments -/

abbrev Kwargs := List (String × PyObject)

/-- `v(message[k])` -/
def transformArg {α : Type} (kwargs : Kwargs) (k : String)
    (v : PyObject → Except Exn α) : Except Exn α :=
  match kwargs.lookup k with
  | some value => v value
  | none => .error PyException.keyError

/-- A call binds its keywords to the parameters of a method. -/
def bindKeywords (required optional : List String) (kwargs : Kwargs) :
    Except Exn Unit :=
  Except.raiseIf
    ((∃ kwarg ∈ kwargs, kwarg.1 ∉ required ++ optional) ∨
      ∃ name ∈ required, kwargs.lookup name = none)
    PyException.typeError

/-- An item of what `bytes` is called on. -/
def byteOf : PyObject → Except PyException UInt8
  | .bool b => .ok (if b then 1 else 0)
  | .int n =>
      if 0 ≤ n ∧ n < 256 then .ok (UInt8.ofNat n.toNat)
      else .error .valueError
  | _ => .error .typeError

/-- The bytes that `int.from_bytes` reads. -/
def PyObject.byteString : PyObject → Except PyException Bytes
  | .bytes b => .ok b
  | .coercible blob => blob
  | .list items => items.mapM byteOf
  | .dict items => (items.map Prod.fst).mapM byteOf
  | .other _ iteration => .error iteration
  | _ => .error .typeError

variable (E : Environment)

/-- The arguments of `do_push_tx`. -/
def pushTxArgs (kwargs : Kwargs) : Except Exn SpendBundle := do
  let tx ← transformArg kwargs "tx" (SpendBundle.parse E).fromObject
  bindKeywords ["tx"] [] kwargs
  .ok tx

def recentBlocksArgs (kwargs : Kwargs) : Except Exn Header := do
  let mostRecentHeader ← transformArg kwargs "most_recent_header"
    Header.parse.fromObject
  bindKeywords ["most_recent_header"] [] kwargs
  .ok mostRecentHeader

def nextBlockArgs (kwargs : Kwargs) : Except Exn (Bytes32 × Bytes32) := do
  let coinbasePuzzleHash ← transformArg kwargs "coinbase_puzzle_hash"
    (SizedBytes.parse 32).fromObject
  let feesPuzzleHash ← transformArg kwargs "fees_puzzle_hash"
    (SizedBytes.parse 32).fromObject
  bindKeywords ["coinbase_puzzle_hash", "fees_puzzle_hash"] [] kwargs
  .ok (coinbasePuzzleHash, feesPuzzleHash)

def skipMillisecondsArgs (kwargs : Kwargs) : Except Exn Bytes := do
  let ms ← transformArg kwargs "ms" fun v =>
    v.byteString.mapError Exn.raised
  bindKeywords ["ms"] [] kwargs
  .ok ms

/-! ## Answers -/

/-- The exception that a stream raises is no `ConsensusError`. -/
def Exn.kind : Exn → PyException
  | .raised kind => kind
  | .consensusError .. => .runtimeError

/-- A streamable object in an answer. -/
def PyObject.ofStream (blob : Except Exn Bytes) : PyObject :=
  .coercible (blob.mapError Exn.kind)

def bodyObject : Option Body → PyObject
  | some body => .ofStream (body.bytes E)
  | none => .none

/-- `BodyList(update_list)`; `None` has no `stream`. -/
def bodyList (updateList : List (Option Body)) : PyObject :=
  .ofStream <| streamList (fun body : Option Body =>
    match body with
    | some body => body.bytes E
    | none => .error PyException.attributeError) updateList

/-- What the ledger takes from the Python that runs it.  The number is that of
the calls before this one, since the clock and an exception may tell more than
their names say. -/
structure Runtime where
  /-- `"got ping message %r at time %s" % (m, datetime.datetime.utcnow())` -/
  ping : ℕ → PyObject → String
  /-- `"accepted %s" % tx` -/
  accepted : SpendBundle → String
  /-- `"%s" % ex` -/
  exception : ℕ → Exn → Except PyException String
  /-- `breakpoint()` returns, as with `PYTHONBREAKPOINT=0`, or raises, as in a
  debugger at the end of its input; `none` if the debugger holds the process. -/
  breakpoint : Option (Except PyException Unit)

variable (runtime : Runtime)

/-- The exceptions that are raised behind a `breakpoint()`, all of
`accept_new_block` and `name_puzzle_conditions_list`. -/
def Exn.behindBreakpoint : Exn → Bool
  | .consensusError .unknown _ => true
  | .consensusError .invalidBlockSolution _ => true
  | _ => false

/-- What comes of a request, `none` if it stays at a breakpoint. -/
def Runtime.pass {α : Type} : Except Exn α → Option (Except Exn α)
  | .ok a => some (.ok a)
  | .error e =>
      if e.behindBreakpoint then
        runtime.breakpoint.map fun outcome =>
          outcome.mapError Exn.raised >>= fun _ => .error e
      else some (.error e)

def answer : Response → PyObject
  | .accepted tx => .dict [(.str "response", .str (runtime.accepted tx))]
  | .block header body =>
      .dict [(.str "header", .ofStream header.bytes),
        (.str "body", bodyObject E body)]
  | .now now => .int now

/-! ## Methods -/

/-- The ledger of a running server, and the number of calls that it has
answered. -/
structure RunningLedger where
  ledger : LedgerAPI
  calls : ℕ

def RunningLedger.initial : RunningLedger :=
  ⟨LedgerAPI.initial, 0⟩

/-- What a call returns, `none` if it has not returned yet, and the ledger that
it leaves. -/
abbrev Method :=
  Kwargs → RunningLedger → Option (Except Exn PyObject) × LedgerAPI

namespace Method

/-- A request to the ledger, if there are the arguments for it. -/
def request {α : Type} (args : Kwargs → Except Exn α) (make : α → Request) :
    Method := fun kwargs self =>
  match args kwargs with
  | .error e => (some (.error e), self.ledger)
  | .ok a =>
      let r := (LedgerAPI.handle E (make a)).run self.ledger
      (runtime.pass (r.1.map (answer E runtime)), r.2)

/-- A method that writes nothing. -/
def query {α : Type} (args : Kwargs → Except Exn α)
    (f : α → RunningLedger → Option (Except Exn PyObject)) : Method :=
  fun kwargs self =>
    match args kwargs with
    | .error e => (some (.error e), self.ledger)
    | .ok a => (f a self, self.ledger)

end Method

/-- The value of a keyword that `bindKeywords` has bound, or its default. -/
def argument (kwargs : Kwargs) (name : String) : PyObject :=
  (kwargs.lookup name).getD .none

/-- `d.get(k)` of a dictionary whose keys are hashes. -/
def getByHash {α : Type} (d : Bytes32 → Option α) (k : PyObject) :
    Except Exn (Option α) :=
  if k.hashable then
    match k with
    | .bytes b => .ok (if h : b.length = 32 then d ⟨b, h⟩ else none)
    | _ => .ok none
  else .error PyException.typeError

namespace LedgerService

def doPing : Method :=
  Method.query
    (fun kwargs => do
      bindKeywords [] ["m"] kwargs
      .ok (argument kwargs "m"))
    fun m self => some <| .ok <| .dict
      [(.str "response", .str (runtime.ping self.calls m))]

def doPushTx : Method :=
  Method.request E runtime (pushTxArgs E) Request.pushTx

def doGetTip : Method :=
  Method.query (bindKeywords [] []) fun _ self =>
    let chainView := self.ledger.chainView
    some <| .ok <| .dict
      [(.str "tip_hash", .bytes chainView.tipHash.hash.1),
        (.str "tip_index", .int chainView.tipIndex),
        (.str "genesis_hash", .bytes chainView.genesisHash.hash.1)]

/-- A bound on the rounds of the loop stands for the time that a call may
take. -/
def doGetRecentBlocks (rounds : ℕ) : Method :=
  Method.query recentBlocksArgs fun mostRecentHeader self =>
    (self.ledger.doGetRecentBlocks E rounds mostRecentHeader).map
      fun r => r.map (bodyList E)

def doGetAllBlocks (rounds : ℕ) : Method :=
  Method.query (bindKeywords [] []) fun _ self =>
    (self.ledger.doGetAllBlocks E rounds).map fun r => r.map (bodyList E)

def doNextBlock : Method :=
  Method.request E runtime nextBlockArgs fun hashes =>
    Request.nextBlock hashes.1 hashes.2

/-- Any keyword is taken, but `self` is bound already. -/
def doAllUnspents : Method :=
  Method.query
    (fun kwargs => Except.raiseIf (∃ kwarg ∈ kwargs, kwarg.1 = "self")
      (PyException.typeError : Exn))
    fun _ self =>
      let allUnspents := (self.ledger.heap self.ledger.unspentDb).unspentDb.keys
      some <| .ok <| .dict [(.str "unspents",
        .list (allUnspents.map fun coinName => .bytes coinName.1))]

def doHashPreimage : Method :=
  Method.query
    (fun kwargs => do
      bindKeywords ["hash"] [] kwargs
      .ok (argument kwargs "hash"))
    fun hash self => some <|
      (getByHash self.ledger.db.hashPreimage hash).map fun
        | some blob => .bytes blob
        | none => .none

def doUnspentForCoinName : Method :=
  Method.query
    (fun kwargs => do
      bindKeywords ["coin_name"] [] kwargs
      .ok (argument kwargs "coin_name"))
    fun coinName self => some <|
      (getByHash self.ledger.db.unspentForCoinName coinName).map fun
        | some unspent => .ofStream unspent.stream
        | none => .none

def doSkipMilliseconds : Method :=
  Method.request E runtime skipMillisecondsArgs Request.skipMilliseconds

/-- The attributes of the API object that a command can name. -/
def method (rounds : ℕ) : String → Option Method
  | "do_ping" => some (doPing runtime)
  | "do_push_tx" => some (doPushTx E runtime)
  | "do_get_tip" => some doGetTip
  | "do_get_recent_blocks" => some (doGetRecentBlocks E rounds)
  | "do_get_all_blocks" => some (doGetAllBlocks E rounds)
  | "do_next_block" => some (doNextBlock E runtime)
  | "do_all_unspents" => some doAllUnspents
  | "do_hash_preimage" => some doHashPreimage
  | "do_unspent_for_coin_name" => some doUnspentForCoinName
  | "do_skip_milliseconds" => some (doSkipMilliseconds E runtime)
  | _ => none

end LedgerService

/-- What the server's loop gets from a call. -/
def CallOutcome.of (text : Exn → Except PyException String) :
    Option (Except Exn PyObject) → CallOutcome
  | some (.ok value) => .returned value
  | some (.error e) => .raised (text e)
  | none => .interrupted

def ledgerService (rounds : ℕ) : Service RunningLedger := fun name =>
  (LedgerService.method E runtime rounds name).map fun method kwargs self =>
    let r := method kwargs self
    (.of (runtime.exception self.calls) r.1, ⟨r.2, self.calls + 1⟩)

/-! ## Requests in messages -/

/-- The request that a call makes of the ledger, if it makes one. -/
def requestsFor (name : String) (kwargs : Kwargs) : List Request :=
  match name with
  | "do_push_tx" => (pushTxArgs E kwargs).toOption.toList.map .pushTx
  | "do_next_block" => (nextBlockArgs kwargs).toOption.toList.map
      fun hashes => .nextBlock hashes.1 hashes.2
  | "do_skip_milliseconds" =>
      (skipMillisecondsArgs kwargs).toOption.toList.map .skipMilliseconds
  | _ => []

/-- `**message.get("q", {})` -/
def messageKwargs (items : List (PyObject × PyObject)) : Option Kwargs :=
  kwargsOf <|
    if PyObject.contains items "q" then PyObject.get items "q" else .dict []

def requestsOf (M : Messaging) : PyObject → List Request
  | .dict items =>
      match messageKwargs items with
      | some kwargs =>
          requestsFor E ("do_" ++ M.format (PyObject.get items "c")) kwargs
      | none => []
  | _ => []

/-! ## Breakpoints -/

namespace LedgerAPI

/-- The request comes to a breakpoint. -/
def breaks (self : LedgerAPI) (request : Request) : Bool :=
  match ((handle E request).run self).1 with
  | .ok _ => false
  | .error e => e.behindBreakpoint

/-- One of the requests comes to a breakpoint. -/
def reachesBreakpoint (self : LedgerAPI) : List Request → Bool
  | [] => false
  | request :: later =>
      self.breaks E request || (step E self request).reachesBreakpoint later

end LedgerAPI

/-- None of the requests stays at a breakpoint. -/
def Runtime.Passes (self : LedgerAPI) (requests : List Request) : Prop :=
  runtime.breakpoint ≠ none ∨ self.reachesBreakpoint E requests = false

variable {E} {runtime}

theorem Runtime.pass_eq_none_iff {α : Type} {r : Except Exn α} :
    runtime.pass r = none ↔ runtime.breakpoint = none ∧
      ∃ e, r = .error e ∧ e.behindBreakpoint = true := by
  cases r with
  | ok a => simp [pass]
  | error e =>
      dsimp only [pass]
      by_cases hbehind : e.behindBreakpoint = true
      · simp [hbehind]
      · simp [hbehind]

theorem Runtime.pass_map_eq_none_iff {α β : Type} {r : Except Exn α}
    {f : α → β} : runtime.pass (r.map f) = none ↔ runtime.pass r = none := by
  simp only [pass_eq_none_iff, Except.map_eq_error_iff]

theorem Runtime.pass_eq_ok_iff {α : Type} {r : Except Exn α} {a : α} :
    runtime.pass r = some (.ok a) ↔ r = .ok a := by
  cases r with
  | ok a' => simp [pass]
  | error e =>
      dsimp only [pass]
      by_cases hbehind : e.behindBreakpoint = true
      · cases runtime.breakpoint with
        | none => simp [hbehind]
        | some outcome =>
            simp only [hbehind, if_true, Option.map_some, Option.some.injEq,
              Except.bind_eq_ok_iff, reduceCtorEq, and_false, exists_false]
      · simp [hbehind]

namespace LedgerAPI

theorem breaks_iff {self : LedgerAPI} {request : Request} :
    self.breaks E request = true ↔
      ∃ e, ((handle E request).run self).1 = .error e ∧
        e.behindBreakpoint = true := by
  unfold breaks
  cases ((handle E request).run self).1 with
  | ok response => simp
  | error e => simp

theorem reachesBreakpoint_singleton (self : LedgerAPI) (request : Request) :
    self.reachesBreakpoint E [request] = self.breaks E request :=
  Bool.or_false _

theorem reachesBreakpoint_append (self : LedgerAPI)
    (earlier later : List Request) :
    self.reachesBreakpoint E (earlier ++ later) =
      (self.reachesBreakpoint E earlier ||
        (earlier.foldl (step E) self).reachesBreakpoint E later) := by
  induction earlier generalizing self with
  | nil => rfl
  | cons request earlier ih =>
      simp only [List.cons_append, reachesBreakpoint, ih, List.foldl_cons,
        Bool.or_assoc]

end LedgerAPI

namespace Runtime

variable {self : LedgerAPI}

theorem passes_nil : runtime.Passes E self [] :=
  .inr rfl

theorem passes_singleton_iff {request : Request} :
    runtime.Passes E self [request] ↔
      runtime.pass ((LedgerAPI.handle E request).run self).1 ≠ none := by
  rw [Ne, pass_eq_none_iff, not_and_or, ← LedgerAPI.breaks_iff,
    Bool.not_eq_true, ← LedgerAPI.reachesBreakpoint_singleton]
  rfl

theorem passes_append_iff {earlier later : List Request} :
    runtime.Passes E self (earlier ++ later) ↔
      runtime.Passes E self earlier ∧
        runtime.Passes E (earlier.foldl (LedgerAPI.step E) self) later := by
  unfold Passes
  rw [LedgerAPI.reachesBreakpoint_append, Bool.or_eq_false_iff,
    or_and_left]

end Runtime

theorem Method.request_ledger {α : Type} {args : Kwargs → Except Exn α}
    {make : α → Request} (kwargs : Kwargs) (self : RunningLedger) :
    (Method.request E runtime args make kwargs self).2 =
      ((args kwargs).toOption.toList.map make).foldl (LedgerAPI.step E)
        self.ledger := by
  unfold Method.request
  cases args kwargs with
  | error e => rfl
  | ok a => rfl

theorem Method.query_ledger {α : Type} {args : Kwargs → Except Exn α}
    {f : α → RunningLedger → Option (Except Exn PyObject)} (kwargs : Kwargs)
    (self : RunningLedger) :
    (Method.query args f kwargs self).2 = self.ledger := by
  unfold Method.query
  cases args kwargs with
  | error e => rfl
  | ok a => rfl

theorem LedgerService.method_ledger {rounds : ℕ} {name : String}
    {method : Method}
    (h : LedgerService.method E runtime rounds name = some method)
    (kwargs : Kwargs) (self : RunningLedger) :
    (method kwargs self).2 =
      (requestsFor E name kwargs).foldl (LedgerAPI.step E) self.ledger := by
  unfold LedgerService.method at h
  split at h
  case h_11 => cases h
  all_goals rw [← Option.some.inj h]
  case h_2 => exact Method.request_ledger kwargs self
  case h_6 => exact Method.request_ledger kwargs self
  case h_10 => exact Method.request_ledger kwargs self
  all_goals exact Method.query_ledger kwargs self

theorem requestsFor_of_none {rounds : ℕ} {name : String}
    (h : LedgerService.method E runtime rounds name = none) (kwargs : Kwargs) :
    requestsFor E name kwargs = [] := by
  unfold requestsFor
  split
  case h_4 => rfl
  all_goals cases h

section Service

variable {rounds : ℕ} {M : Messaging}

theorem ledgerService_after (message : PyObject) (s : RunningLedger) :
    ((ledgerService E runtime rounds).after M s message).ledger =
      (requestsOf E M message).foldl (LedgerAPI.step E) s.ledger := by
  cases message with
  | dict items =>
      unfold Service.after requestsOf ledgerService
      dsimp only
      rw [← messageKwargs]
      cases messageKwargs items with
      | none =>
          split
          next hnone => cases hnone
          next => rfl
      | some kwargs =>
          dsimp only
          cases hmethod : LedgerService.method E runtime rounds
              ("do_" ++ M.format (PyObject.get items "c")) with
          | none =>
              rw [requestsFor_of_none hmethod]
              rfl
          | some method =>
              exact LedgerService.method_ledger hmethod kwargs s
  | _ => rfl

theorem ledgerService_stateAfter (messages : List PyObject)
    (s : RunningLedger) :
    ((ledgerService E runtime rounds).stateAfter M s messages).ledger =
      (messages.flatMap (requestsOf E M)).foldl (LedgerAPI.step E)
        s.ledger := by
  induction messages generalizing s with
  | nil => rfl
  | cons message rest ih =>
      rw [List.flatMap_cons, List.foldl_append,
        ← @ledgerService_after E runtime rounds M message s]
      exact ih _

end Service

end LedgerSim
