import LedgerSim.ReplyRouting
import LedgerSim.WireFormat

/-!
# What a call returns

A call awaits its future and passes what it gets, be it a result or a
`RemoteError`, to the transformation of its method.  The transformations are
made for results.
-/

namespace LedgerSim

/-! ## Built-in conversions -/

namespace PyObject

/-- `list(d)` -/
def elements : PyObject → Except PyException (List PyObject)
  | .list items => .ok items
  | .dict items => .ok (items.map Prod.fst)
  | .str s => .ok (s.toList.map fun c => .str (String.singleton c))
  | .bytes b => .ok (b.map fun byte => .int byte.toNat)
  | .other _ iteration => .error iteration
  | _ => .error .typeError

/-- `bool(d)` -/
def truth : PyObject → Bool
  | .none => false
  | .bool b => b
  | .int n => n ≠ 0
  | .float integral => integral ≠ some 0
  | .str s => s ≠ ""
  | .bytes b => !b.isEmpty
  | .list items => !items.isEmpty
  | .dict items => !items.isEmpty
  | .coercible _ => true
  | .other .. => true

/-- An item of the iterable that `dict` is called on. -/
def addPair (newD : List (PyObject × PyObject)) (pair : PyObject) :
    Except PyException (List (PyObject × PyObject)) := do
  match ← pair.elements with
  | [k, v] =>
      if ¬ k.hashable then .error .typeError
      else if k.key ≠ Option.none ∧
          newD.any fun item => item.1.key = k.key then
        .ok (newD.map fun item =>
          if item.1.key = k.key then (item.1, v) else item)
      else .ok (newD ++ [(k, v)])
  | _ => .error .valueError

/-- `dict(d)` -/
def toDict : PyObject → Except PyException (List (PyObject × PyObject))
  | .dict items => .ok items
  | d => do
      let pairs ← d.elements
      pairs.foldlM addPair []

/-- `d[key]` for a string. -/
def getItem (d : PyObject) (key : String) : Except PyException PyObject :=
  match d with
  | .dict items =>
      if contains items key then .ok (get items key) else .error .keyError
  | _ => .error .typeError

/-- The blob under `io.BytesIO(d)`. -/
def bytesIO : PyObject → Except PyException Bytes
  | .none => .ok []
  | .bytes b => .ok b
  | _ => .error .typeError

end PyObject

def Parser.fromObject {α : Type} (parse : Parser α) (d : PyObject) :
    Except Exn α := do
  let blob ← d.bytesIO.mapError Exn.raised
  parse.fromBytes blob

/-! ## Transformations -/

inductive RemoteField where
  | object (v : PyObject)
  | headerHash (hash : HeaderHash)
  | header (header : Header)
  | body (body : Body)
  | coinNames (names : List Bytes32)

/-- What `invoke_remote` returns. -/
inductive RemoteValue where
  | remoteError (e : PyObject)
  | object (r : PyObject)
  | dict (items : List (PyObject × RemoteField))
  | unspent (unspent : Unspent)

abbrev Transformation := Reply → Except Exn RemoteValue

/-- `dict(message)`; an exception cannot be iterated. -/
def Reply.toDict : Reply → Except PyException (List (PyObject × PyObject))
  | .remoteError _ => .error .typeError
  | .value r => r.toDict

/-- `message[k]`; an exception has no items. -/
def Reply.getItem (message : Reply) (k : String) :
    Except PyException PyObject :=
  match message with
  | .remoteError _ => .error .typeError
  | .value r => r.getItem k

/-- `new_message[k] = field` -/
def setField (newMessage : List (PyObject × RemoteField)) (k : String)
    (field : RemoteField) : List (PyObject × RemoteField) :=
  if newMessage.any fun item => item.1.key = some (.str k) then
    newMessage.map fun item =>
      if item.1.key = some (.str k) then (item.1, field) else item
  else newMessage ++ [(.str k, field)]

def xformDict (kwargs : List (String × (PyObject → Except Exn RemoteField))) :
    Transformation := fun message => do
  let newMessage ← message.toDict.mapError Exn.raised
  let newMessage := newMessage.map fun item =>
    (item.1, RemoteField.object item.2)
  let newMessage ← kwargs.foldlM (fun newMessage kwarg => do
    let v ← (message.getItem kwarg.1).mapError Exn.raised
    let field ← kwarg.2 v
    .ok (setField newMessage kwarg.1 field)) newMessage
  .ok (.dict newMessage)

def headerHashFromBytes (v : PyObject) : Except Exn RemoteField := do
  let hash ← (SizedBytes.parse 32).fromObject v
  .ok (.headerHash ⟨hash, none⟩)

def headerFromBytes (v : PyObject) : Except Exn RemoteField := do
  let header ← Header.parse.fromObject v
  .ok (.header header)

def coinNamesFromBytes (u : PyObject) : Except Exn RemoteField := do
  let items ← u.elements.mapError Exn.raised
  let names ← items.mapM (SizedBytes.parse 32).fromObject
  .ok (.coinNames names)

variable (E : Environment)

def bodyFromBytes (v : PyObject) : Except Exn RemoteField := do
  let body ← (Body.parse E).fromObject v
  .ok (.body body)

/-- `Unspent.from_bytes(x) if x else None` -/
def unspentFromBytes : Transformation
  -- a `RemoteError` is true, and `io.BytesIO` refuses it
  | .remoteError _ => .error PyException.typeError
  | .value x =>
      if x.truth then do
        let unspent ← Unspent.parse.fromObject x
        .ok (.unspent unspent)
      else .ok (.object .none)

/-- `REMOTE_SIGNATURES` -/
def remoteSignatures : String → Option Transformation
  | "get_tip" => some <| xformDict
      [("genesis_hash", headerHashFromBytes), ("tip_hash", headerHashFromBytes)]
  | "next_block" => some <| xformDict
      [("header", headerFromBytes), ("body", bodyFromBytes E)]
  | "all_unspents" => some <| xformDict [("unspents", coinNamesFromBytes)]
  | "unspent_for_coin_name" => some unspentFromBytes
  | _ => none

/-! ## The end of a call -/

inductive InvokeOutcome where
  | returned (value : RemoteValue)
  | raised (e : Exn)
  | connectionReset
  | cancelled

def Reply.untransformed : Reply → RemoteValue
  | .remoteError e => .remoteError e
  | .value r => .object r

def InvokeOutcome.of : Except Exn RemoteValue → InvokeOutcome
  | .ok value => .returned value
  | .error e => .raised e

def transformed (method : String) (reply : Reply) : InvokeOutcome :=
  match remoteSignatures E method with
  | some transformation => .of (transformation reply)
  | none => .returned reply.untransformed

/-- `invoke_remote` from the `await` on, once its future is done. -/
def afterAwait (method : String) : FutureStatus → Option InvokeOutcome
  | .pending => none
  | .result reply => some (transformed E method reply)
  | .connectionReset => some .connectionReset
  | .cancelled => some .cancelled

/-- What the caller should get for a response: the error that it carries, or
the transformation of its result. -/
def responseOutcome (method : String) (items : List (PyObject × PyObject)) :
    InvokeOutcome :=
  if PyObject.contains items "e" then
    .returned (.remoteError (PyObject.get items "e"))
  else transformed E method (.value (PyObject.get items "r"))

/-! ## Errors are not transformed -/

theorem xformDict_remoteError
    (kwargs : List (String × (PyObject → Except Exn RemoteField)))
    (e : PyObject) :
    xformDict kwargs (.remoteError e) = .error PyException.typeError :=
  rfl

variable {E}

theorem remoteSignatures_remoteError {method : String}
    {transformation : Transformation}
    (h : remoteSignatures E method = some transformation) (e : PyObject) :
    transformation (.remoteError e) = .error PyException.typeError := by
  unfold remoteSignatures at h
  split at h
  next => rw [← Option.some.inj h, xformDict_remoteError]
  next => rw [← Option.some.inj h, xformDict_remoteError]
  next => rw [← Option.some.inj h, xformDict_remoteError]
  next =>
      rw [← Option.some.inj h]
      rfl
  next => cases h

/-- An error reaches the caller exactly if nothing is done to it. -/
theorem transformed_remoteError_iff {method : String} {e : PyObject} :
    transformed E method (.remoteError e) = .returned (.remoteError e) ↔
      remoteSignatures E method = none := by
  unfold transformed
  cases hsignature : remoteSignatures E method with
  | none => exact iff_of_true rfl rfl
  | some transformation =>
      have htype := remoteSignatures_remoteError hsignature e
      dsimp only
      rw [htype]
      exact iff_of_false nofun nofun

open Reference in
example : transformed environment "all_unspents"
    (.value (.dict [(.str "unspents", .list [.bytes (List.replicate 33 7)])])) =
      .returned (.dict
        [(.str "unspents", .coinNames [SizedBytes.fill 32 7])]) :=
  rfl

/-! ## A response to a waiting call -/

/-- The reply in a received map. -/
def replyOf (items : List (PyObject × PyObject)) : Reply :=
  if PyObject.contains items "e" then .remoteError (PyObject.get items "e")
  else .value (PyObject.get items "r")

theorem replyTo_dict {items : List (PyObject × PyObject)} {nonce : ℕ}
    (hnonce : (PyObject.get items "n").key = some (.int nonce)) :
    replyTo nonce (.dict items) = some (replyOf items) :=
  if_pos hnonce

namespace NonceWatcher

variable {M : Messaging} {self : NonceWatcher}

theorem running_of_step {event : ClientEvent}
    (hrunning : (step M self event).task = .running) :
    self.task = .running := by
  cases event with
  | invoke method kwargs =>
      by_contra hended
      rw [step, invokeRemote_of_ended hended] at hrunning
      exact hended hrunning
  | receive value => exact ((receive_kept M value).next hrunning).1
  | endOfStream => exact (endOfStream_kept.next hrunning).1
  | resume i => exact ((resume_kept i).next hrunning).1
  | cancel i =>
      have hkept : self.Kept (self.leave i fun self future =>
          self.complete future .cancelled) :=
        leave_kept i (fun future => complete_kept future .cancelled)
          fun future => complete_calls future .cancelled
      exact (hkept.next hrunning).1
  | abandon i =>
      have hkept : self.Kept (self.leave i fun self _ => self) :=
        leave_kept i (fun _ => Kept.refl self) fun _ => rfl
      exact (hkept.next hrunning).1
  | collect future => exact ((collect_kept future).next hrunning).1

theorem running_of_foldl {events : List ClientEvent}
    (hrunning : (events.foldl (step M) self).task = .running) :
    self.task = .running := by
  induction events generalizing self with
  | nil => exact hrunning
  | cons event rest ih => exact running_of_step (ih hrunning)

/-- A value that does not pass would have ended the task. -/
theorem accepts_of_running {before after : List ClientEvent}
    {event : ClientEvent}
    (hrunning : (run M (before ++ event :: after)).task = .running) :
    (run M before).Accepts M event := by
  cases event with
  | receive value =>
      intro hbefore _
      by_contra hfails
      obtain ⟨failure, hfailed⟩ := receive_of_not_passes hbefore hfails
      rw [run_append, List.foldl_cons, step, hfailed] at hrunning
      cases running_of_foldl hrunning
  | _ => trivial

variable (M) in
/-- The call that was made after the events `before` still waits for its
response after the events `between`. -/
structure Awaits (before : List ClientEvent) (method : String)
    (kwargs : List (String × PyObject)) (between : List ClientEvent)
    (call : RemoteCall) : Prop where
  running : (run M (before ++ .invoke method kwargs :: between)).task =
    .running
  call_eq : (run M (before ++ .invoke method kwargs :: between)).calls[
    (run M before).calls.length]? = some call
  waiting : call.state = .waiting
  pending : (run M (before ++ .invoke method kwargs :: between)).futures[
    call.future]? = some .pending

section Awaits

variable {before between : List ClientEvent} {method : String}
  {kwargs : List (String × PyObject)} {call : RemoteCall}

theorem Awaits.running_before
    (h : Awaits M before method kwargs between call) :
    (run M before).task = .running := by
  have hrunning := h.running
  rw [run_append] at hrunning
  exact running_of_foldl hrunning

theorem Awaits.call_numbers (h : Awaits M before method kwargs between call) :
    call.nonce = (run M before).initialNonce ∧
      call.future = (run M before).initialNonce := by
  have hbefore : (run M before).Consistent := run_consistent before
  have hnumbers := (run_consistent (M := M) _).call_eq h.call_eq
  rw [hbefore.calls_length, ← hbefore.next h.running_before] at hnumbers
  exact hnumbers

/-- The watcher still knows the future. -/
theorem Awaits.futureOf_eq (h : Awaits M before method kwargs between call) :
    (run M (before ++ .invoke method kwargs :: between)).futureOf
      call.future = some call.future := by
  have hbefore : (run M before).Consistent := run_consistent before
  have hnumber := hbefore.calls_length
  have haccepts : ∀ earlier event later, between = earlier ++ event :: later →
      (run M (before ++ .invoke method kwargs :: earlier)).Accepts M
        event := by
    intro earlier event later hsplit
    have hrunning : (run M ((before ++ .invoke method kwargs :: earlier) ++
        event :: later)).task = .running := by
      rw [List.append_assoc, List.cons_append, ← hsplit]
      exact h.running
    exact accepts_of_running hrunning
  obtain ⟨call', status, htracked⟩ := run_tracked h.running_before haccepts
  rw [← hnumber] at htracked
  obtain rfl := htracked.call_unique h.call_eq
  have hconsistent : (run M (before ++ .invoke method kwargs ::
    between)).Consistent := run_consistent _
  have hfuture := (hconsistent.call_eq h.call_eq).2
  have hstatus : status = .pending := by
    have hpending := h.pending
    rw [hfuture, htracked.future_eq] at hpending
    exact Option.some.inj hpending
  have hagrees := htracked.of_waiting h.waiting
  have hmem := (hagrees.2 (hagrees.1.symm.trans hstatus)).2
  rw [hfuture]
  exact hconsistent.futureOf_of_mem hmem

theorem result_ne_pending (reply : Reply) :
    FutureStatus.result reply ≠ .pending := nofun

/-- The response completes the future, and nothing that comes later changes
it. -/
theorem Awaits.completed (h : Awaits M before method kwargs between call)
    {items : List (PyObject × PyObject)}
    (hnonce : (PyObject.get items "n").key =
      some (.int (run M before).initialNonce)) (later : List ClientEvent) :
    (run M (before ++ .invoke method kwargs :: between ++
        .receive (.dict items) :: later)).futures[call.future]? =
      some (.result (replyOf items)) := by
  rw [← h.call_numbers.2] at hnonce
  have hreceive := receive_of_reply M h.running (replyTo_dict hnonce)
  rw [h.futureOf_eq] at hreceive
  have hconsistent : (run M (before ++ .invoke method kwargs ::
    between)).Consistent := run_consistent _
  rw [run_append, List.foldl_cons]
  apply foldl_futures_done (step_consistent hconsistent _)
  · rw [step, hreceive]
    exact complete_futures_self h.pending _
  · exact result_ne_pending _

end Awaits

variable (E : Environment)

/-- A response reaches the caller as it should exactly if it carries no error
or nothing is done to the replies to the method. -/
theorem remote_errors_reach_caller_iff {before between : List ClientEvent}
    {method : String} {kwargs : List (String × PyObject)} {call : RemoteCall}
    (hcall : Awaits M before method kwargs between call)
    {items : List (PyObject × PyObject)}
    (hnonce : (PyObject.get items "n").key =
      some (.int (run M before).initialNonce)) (later : List ClientEvent) :
    ∃ status,
      (run M (before ++ .invoke method kwargs :: between ++
        .receive (.dict items) :: later)).futures[call.future]? =
          some status ∧
      (afterAwait E method status = some (responseOutcome E method items) ↔
        PyObject.contains items "e" = false ∨
          remoteSignatures E method = none) := by
  refine ⟨_, hcall.completed hnonce later, ?_⟩
  unfold responseOutcome replyOf
  cases herror : PyObject.contains items "e" with
  | false => exact iff_of_true rfl (.inl rfl)
  | true =>
      have htransformed : transformed E method
          (.remoteError (PyObject.get items "e")) =
            .returned (.remoteError (PyObject.get items "e")) ↔
              remoteSignatures E method = none := transformed_remoteError_iff
      constructor
      · intro h
        exact .inr (htransformed.mp (Option.some.inj h))
      · rintro (h | h)
        · cases h
        · exact congrArg some (htransformed.mpr h)

end NonceWatcher

namespace Reference

/-- The encoding of a first call of `next_block` without arguments. -/
def nextBlockDumps : PyObject → Except PyException Bytes
  | .dict [(.str "c", .str "next_block"), (.str "n", .int 0),
      (.str "q", .dict [])] =>
        .ok [0xa3, 0x61, 0x63, 0x6a, 0x6e, 0x65, 0x78, 0x74, 0x5f, 0x62, 0x6c,
          0x6f, 0x63, 0x6b, 0x61, 0x6e, 0x00, 0x61, 0x71, 0xa0]
  | _ => .error .valueError

def nextBlockMessaging : Messaging :=
  { callMessaging with dumps := nextBlockDumps }

def errorResponse : List (PyObject × PyObject) :=
  [(.str "n", .int 0), (.str "e", .str "exception: out of range")]

end Reference

namespace NonceWatcher

open Reference

/-- The method `f` has no transformation. -/
theorem remote_errors_reach_caller_f :
    ∃ status,
      (run callMessaging [.invoke "f" [],
        .receive (.dict errorResponse)]).futures[0]? = some status ∧
      afterAwait environment "f" status =
        some (responseOutcome environment "f" errorResponse) := by
  have hcall : Awaits callMessaging [] "f" [] [] ⟨0, 0, .waiting⟩ :=
    ⟨rfl, rfl, rfl, rfl⟩
  have hnonce : (PyObject.get errorResponse "n").key = some (.int 0) := rfl
  obtain ⟨status, hstatus, houtcome⟩ :=
    remote_errors_reach_caller_iff environment hcall hnonce []
  exact ⟨status, hstatus, houtcome.mpr (.inr rfl)⟩

/-- The error of a block meets `dict`. -/
theorem remote_error_of_next_block_lost :
    ¬ ∀ (M : Messaging) (before between later : List ClientEvent)
        (method : String) (kwargs : List (String × PyObject))
        (call : RemoteCall) (items : List (PyObject × PyObject)),
      Awaits M before method kwargs between call →
        (PyObject.get items "n").key =
          some (.int (run M before).initialNonce) →
        ∃ status,
          (run M (before ++ .invoke method kwargs :: between ++
            .receive (.dict items) :: later)).futures[call.future]? =
              some status ∧
          afterAwait environment method status =
            some (responseOutcome environment method items) := by
  intro h
  obtain ⟨status, hstatus, houtcome⟩ := h nextBlockMessaging [] [] []
    "next_block" [] ⟨0, 0, .waiting⟩ errorResponse ⟨rfl, rfl, rfl, rfl⟩ rfl
  have hresult : status = .result
      (.remoteError (.str "exception: out of range")) :=
    (Option.some.inj hstatus).symm
  rw [hresult] at houtcome
  cases houtcome

end NonceWatcher

end LedgerSim
